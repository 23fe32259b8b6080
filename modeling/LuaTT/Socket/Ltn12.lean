import LuaTT.Lua.Number
import LuaTT.Library.Streaming

/-! `ltn12.lua`: filters, sources, sinks and pumps, the closures of Lua as functions with their state. A
chunk is a string, or nil at the end of the data. The loops run on fuel. -/
namespace LuaTT.Ltn12
open Lua Streaming
set_option autoImplicit false

/-- An error that `base.error` has raised, or the end of the fuel. -/
inductive Stop
  | error (msg : Bytes)
  | fuel
  deriving DecidableEq

abbrev Filter (σ : Type) := Option Bytes → σ → Option Bytes × σ

/-- A chunk and an error message, as a source returns them. -/
structure Reply where
  chunk : Option Bytes
  err : Option Bytes

abbrev Source (τ : Type) := τ → Except Stop (Reply × τ)

/-- 1, or nil and an error message. -/
structure Ret where
  ok : Bool
  err : Option Bytes

abbrev Sink (τ : Type) := Option Bytes → Option Bytes → τ → Except Stop (Ret × τ)

section
variable {σ τ ω : Type}

/-! ## Filters -/

/-- `filter.cycle`: the extra argument is one that `low` has been given before. -/
def filterCycle (low : σ → Option Bytes → Option Bytes × σ) : Filter σ := fun chunk ctx => low ctx chunk

/-! ## Sources -/

def BLOCKSIZE : ℕ := 2048

/-- `source.string`, whose state is the index of the next byte, from 0. -/
def sourceString (s : Bytes) : Source ℕ := fun i =>
  let chunk := (s.drop i).take BLOCKSIZE
  .ok (⟨if chunk ≠ [] then some chunk else none, none⟩, i + BLOCKSIZE)

structure ChainState (τ σ : Type) where
  src : τ
  filter : σ
  lastIn : Option Bytes
  lastOut : Option Bytes
  feeding : Bool

def ChainState.start (src : τ) (filter : σ) : ChainState τ σ := ⟨src, filter, some [], some [], true⟩

/-- The loop of `source.chain`. -/
def chainLoop (src : Source τ) (f : Filter σ) :
    ℕ → ChainState τ σ → Except Stop (Reply × ChainState τ σ)
  | 0, _ => .error .fuel
  | fuel + 1, st =>
    if st.feeding then do
      let (r, τ) ← src st.src
      let st := { st with src := τ, lastIn := r.chunk }
      if r.err.isSome then return (⟨none, r.err⟩, st)
      let (lastOut, filter) := f r.chunk st.filter
      let st := { st with filter, lastOut }
      match lastOut with
      | none =>
        if r.chunk.isSome then .error (.error (bytes "filter returned inappropriate nil"))
        else return (⟨none, none⟩, st)
      | some [] => chainLoop src f fuel st
      | some out =>
        return (⟨some out, none⟩, { st with feeding := false, lastIn := r.chunk.map fun _ => [] })
    else
      let (lastOut, filter) := f st.lastIn st.filter
      let st := { st with filter, lastOut }
      match lastOut with
      | some [] =>
        if st.lastIn = some [] then chainLoop src f fuel { st with feeding := true }
        else .error (.error (bytes "filter returned \"\""))
      | none =>
        if st.lastIn.isSome then .error (.error (bytes "filter returned inappropriate nil"))
        else return (⟨none, none⟩, st)
      | some out => return (⟨some out, none⟩, st)

/-- `source.chain`. -/
def sourceChain (fuel : ℕ) (src : Source τ) (f : Filter σ) : Source (ChainState τ σ) := fun st =>
  if st.lastOut = none then .error (.error (bytes "source is empty!")) else chainLoop src f fuel st

/-! ## Sinks -/

/-- `sink.table`. -/
def sinkTable : Sink (List Bytes) := fun chunk _ t => .ok (⟨true, none⟩, t ++ chunk.toList)

/-- The loop of `sink.chain`. -/
def sinkLoop (f : Filter σ) (snk : Sink ω) (done err : Option Bytes) :
    ℕ → Option Bytes → σ × ω → Except Stop (Ret × σ × ω)
  | 0, _, _ => .error .fuel
  | fuel + 1, filtered, (s, w) => do
    let (r, w) ← snk filtered err w
    if !r.ok then return (⟨false, r.err⟩, s, w)
    if filtered = done then return (⟨true, none⟩, s, w)
    let (filtered, s) := f done s
    sinkLoop f snk done err fuel filtered (s, w)

/-- `sink.chain`. -/
def sinkChain (fuel : ℕ) (f : Filter σ) (snk : Sink ω) : Sink (σ × ω) := fun chunk err (s, w) =>
  if chunk ≠ some [] then
    let (filtered, s) := f chunk s
    sinkLoop f snk (chunk.map fun _ => []) err fuel filtered (s, w)
  else .ok (⟨true, none⟩, s, w)

/-! ## Pumps -/

/-- `pump.step`. -/
def pumpStep (src : Source τ) (snk : Sink ω) : τ × ω → Except Stop (Ret × τ × ω) := fun (t, w) => do
  let (r, t) ← src t
  let (ret, w) ← snk r.chunk r.err w
  if r.chunk.isSome && ret.ok then return (⟨true, none⟩, t, w)
  else return (⟨false, r.err.or ret.err⟩, t, w)

/-- `pump.all`. -/
def pumpAll (src : Source τ) (snk : Sink ω) : ℕ → τ × ω → Except Stop (Ret × τ × ω)
  | 0, _ => .error .fuel
  | fuel + 1, st => do
    let (ret, st) ← pumpStep src snk st
    if ret.ok then pumpAll src snk fuel st
    else if ret.err.isSome then return (⟨false, ret.err⟩, st)
    else return (⟨true, none⟩, st)

/-! ## What sources, filters and sinks are for -/

/-- The source gives these chunks and then ends, with an error or without. -/
inductive Ends (src : Source τ) (e : Option Bytes) : τ → List Bytes → Prop
  | nil {t t' : τ} (h : src t = .ok (⟨none, e⟩, t')) : Ends src e t []
  | cons {t t' : τ} {c : Bytes} {cs : List Bytes} (h : src t = .ok (⟨some c, none⟩, t'))
      (rest : Ends src e t' cs) : Ends src e t (c :: cs)

abbrev Yields (src : Source τ) : τ → List Bytes → Prop := Ends src none

/-- The empty string as a result at the end of the data. -/
def filled (out : Bytes) : Option Bytes := if out = [] then none else some out

/-- The filter does on chunks what a machine does on bytes; past the end it has nothing more. -/
structure Realises {ρ : Type} (f : Filter σ) (T : Transducer ρ UInt8 UInt8) (R : σ → ρ → Prop)
    (Done : σ → Prop) : Prop where
  feed : ∀ {s p}, R s p → ∀ c, ∃ s', f (some c) s = (some (T.feed p c).2, s') ∧ R s' (T.feed p c).1
  last : ∀ {s p}, R s p → ∃ s', f none s = (filled (T.finish p), s') ∧ Done s'
  done : ∀ {s}, Done s → ∃ s', f none s = (none, s') ∧ Done s'

/-- The sink takes every chunk: `P` as long as there are more, `Q` at the end. -/
structure Takes (snk : Sink ω) (P Q : ω → Bytes → Prop) : Prop where
  some : ∀ {w s}, P w s → ∀ c err, ∃ w', snk (some c) err w = .ok (⟨true, none⟩, w') ∧ P w' (s ++ c)
  none : ∀ {w s}, P w s → ∀ err, ∃ w', snk none err w = .ok (⟨true, none⟩, w') ∧ Q w' s

/-- The sink keeps what it is given. -/
structure Collects (snk : Sink ω) (contents : ω → Bytes) : Prop where
  some : ∀ c err w, ∃ w', snk (some c) err w = .ok (⟨true, none⟩, w') ∧ contents w' = contents w ++ c
  none : ∀ err w, ∃ w', snk none err w = .ok (⟨true, none⟩, w') ∧ contents w' = contents w

end
end LuaTT.Ltn12
