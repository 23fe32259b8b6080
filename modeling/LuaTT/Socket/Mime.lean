import LuaTT.Socket.Pumps

/-! `mime.c`, and the filters that `mime.lua` makes of it. The functions that keep unread bytes from call to
call take them as a string and read them again in front of the next chunk. -/
namespace LuaTT.Mime
open Lua Ltn12 Streaming Transducer
set_option autoImplicit false

def CRLF : Bytes := [13, 10]

def EQCRLF : Bytes := [61, 13, 10]

/-! ## Base64 -/

def b64base : Bytes := bytes "ABCDEFGHIJKLMNOPQRSTUVWXYZabcdefghijklmnopqrstuvwxyz0123456789+/"

/-- `b64base[i]`. -/
def b64char (i : ℕ) : UInt8 := b64base.getD i 0

/-- The table `b64setup` fills. -/
def b64unbase (c : UInt8) : UInt8 :=
  if c = 61 then 0 else if c ∈ b64base then (b64base.idxOf c).toUInt8 else 255

/-- The bytes waiting for a full atom, and the output. -/
def b64encode (c : UInt8) (input : Bytes) : Bytes × Bytes :=
  match input ++ [c] with
  | [x, y, z] =>
    let value := (x.toNat * 256 + y.toNat) * 256 + z.toNat
    let code3 := b64char (value % 64)
    let value := value / 64
    let code2 := b64char (value % 64)
    let value := value / 64
    let code1 := b64char (value % 64)
    let value := value / 64
    ([], [b64char value, code1, code2, code3])
  | input => (input, [])

def b64pad (input : Bytes) : Bytes :=
  match input with
  | [x] =>
    let value := x.toNat * 16
    [b64char (value / 64), b64char (value % 64), 61, 61]
  | [x, y] =>
    let value := (x.toNat * 256 + y.toNat) * 4
    let code2 := b64char (value % 64)
    let value := value / 64
    [b64char (value / 64), b64char (value % 64), code2, 61]
  | _ => []

def b64decode (c : UInt8) (input : Bytes) : Bytes × Bytes :=
  if 64 < b64unbase c then (input, [])
  else
    match input ++ [c] with
    | [p, q, r, s] =>
      let value := (((b64unbase p).toNat * 64 + (b64unbase q).toNat) * 64 + (b64unbase r).toNat) * 64 +
        (b64unbase s).toNat
      let decoded := [(value / 65536).toUInt8, (value / 256).toUInt8, value.toUInt8]
      ([], decoded.take (if r = 61 then 1 else if s = 61 then 2 else 3))
    | input => (input, [])

/-! ## Quoted-printable -/

inductive QpClass
  | plain
  | quoted
  | cr
  | ifLast
  deriving DecidableEq

/-- The table `qpsetup` fills. -/
def qpclass (c : UInt8) : QpClass :=
  if c = 13 then .cr
  else if c = 32 ∨ c = 9 then .ifLast
  else if 62 ≤ c ∧ c ≤ 126 ∨ 33 ≤ c ∧ c ≤ 60 then .plain
  else .quoted

def qpbase : Bytes := bytes "0123456789ABCDEF"

def qpunbase (c : UInt8) : UInt8 :=
  if 48 ≤ c ∧ c ≤ 57 then c - 48
  else if 65 ≤ c ∧ c ≤ 70 then c - 55
  else if 97 ≤ c ∧ c ≤ 102 then c - 87
  else 255

def qpquote (c : UInt8) : Bytes := [61, qpbase.getD (c.toNat / 16) 0, qpbase.getD (c.toNat % 16) 0]

/-- The loop of `qpencode`: what is left of the bytes, and the output. -/
def qploop (marker : Bytes) : Bytes → Bytes × Bytes
  | [] => ([], [])
  | c :: input =>
    let quote := qploop marker input
    match qpclass c with
    | .cr =>
      match input with
      | [] => ([c], [])
      | d :: _ => if d = 10 then ([], marker) else (quote.1, qpquote c ++ quote.2)
    | .ifLast =>
      match input with
      | d :: e :: _ =>
        if d = 13 ∧ e = 10 then ([], qpquote c ++ marker) else (quote.1, c :: quote.2)
      | _ => (c :: input, [])
    | .quoted => (quote.1, qpquote c ++ quote.2)
    | .plain => (quote.1, c :: quote.2)

def qpencode (marker : Bytes) (c : UInt8) (input : Bytes) : Bytes × Bytes := qploop marker (input ++ [c])

def qppad (input : Bytes) : Bytes :=
  (input.flatMap fun c => if qpclass c = .plain then [c] else qpquote c) ++
    if input ≠ [] then EQCRLF else []

def qpdecode (c : UInt8) (input : Bytes) : Bytes × Bytes :=
  match input ++ [c] with
  | [] => ([], [])
  | a :: rest =>
    if a = 61 then
      match rest with
      | x :: y :: _ =>
        if x = 13 ∧ y = 10 then ([], [])
        else if 15 < qpunbase x ∨ 15 < qpunbase y then ([], [a, x, y])
        else ([], [qpunbase x * 16 + qpunbase y])
      | _ => (a :: rest, [])
    else if a = 13 then
      match rest with
      | x :: _ => if x = 10 then ([], [a, x]) else ([], [])
      | [] => ([a], [])
    else if a = 9 ∨ 31 < a ∧ a < 127 then ([], [a])
    else ([], [])

/-! ## The functions with a string context

`mime_global_b64`, `mime_global_unb64`, `mime_global_qp` and `mime_global_unqp` differ in how they read a
byte and in what they add at the end. -/

/-- A byte machine that begins with nothing waiting. -/
def machine (step : UInt8 → Bytes → Bytes × Bytes) (pad : Bytes → Bytes) : Transducer Bytes UInt8 UInt8 :=
  ⟨[], fun input c => step c input, pad⟩

/-- A result that begins with a zero byte counts as empty. -/
def stringFilter (T : Transducer Bytes UInt8 UInt8) (C D : Option Bytes) :
    Option Bytes × Option Bytes :=
  match C with
  | none => (none, none)
  | some C =>
    let (atom, buffer) := T.feed [] C
    match D with
    | none =>
      let buffer := buffer ++ T.finish atom
      (if cstring buffer = [] then none else some buffer, none)
    | some D =>
      let (atom, buffer') := T.feed atom D
      (some (buffer ++ buffer'), some atom)

def b64Machine : Transducer Bytes UInt8 UInt8 := machine b64encode b64pad

def unb64Machine : Transducer Bytes UInt8 UInt8 := machine b64decode fun _ => []

def qpMachine (marker : Bytes) : Transducer Bytes UInt8 UInt8 := machine (qpencode marker) qppad

def unqpMachine : Transducer Bytes UInt8 UInt8 := machine qpdecode fun _ => []

def mimeGlobalB64 : Option Bytes → Option Bytes → Option Bytes × Option Bytes := stringFilter b64Machine

def mimeGlobalUnb64 : Option Bytes → Option Bytes → Option Bytes × Option Bytes :=
  stringFilter unb64Machine

/-- The marker is read up to a zero byte; without one it is CRLF. -/
def mimeGlobalQp (marker : Option Bytes) : Option Bytes → Option Bytes → Option Bytes × Option Bytes :=
  stringFilter (qpMachine (marker.elim CRLF cstring))

def mimeGlobalUnqp : Option Bytes → Option Bytes → Option Bytes × Option Bytes := stringFilter unqpMachine

/-! ## Line breaks -/

/-- The loop of `mime_global_wrp`: `left` bytes fit in the line. -/
def wrpMachine (length : ℤ) : Transducer ℤ UInt8 UInt8 where
  init := length
  step left c :=
    if c = 13 then (left, [])
    else if c = 10 then (length, CRLF)
    else if left ≤ 0 then (length - 1, CRLF ++ [c])
    else (left - 1, [c])
  finish left := if left < length then CRLF else []

/-- The loop of `mime_global_qpwrp`. -/
def qpwrpMachine (length : ℤ) : Transducer ℤ UInt8 UInt8 where
  init := length
  step left c :=
    if c = 13 then (left, [])
    else if c = 10 then (length, CRLF)
    else if c = 61 then if left ≤ 3 then (length - 1, EQCRLF ++ [c]) else (left - 1, [c])
    else if left ≤ 1 then (length - 1, EQCRLF ++ [c])
    else (left - 1, [c])
  finish left := if left < length then EQCRLF else []

/-- At the end of the data the line is closed, and a new one begins. -/
def wrapFilter (T : Transducer ℤ UInt8 UInt8) (left : ℤ) (B : Option Bytes) : Option Bytes × ℤ :=
  match B with
  | none => (filled (T.finish left), T.init)
  | some B => let (left, buffer) := T.feed left B; (some buffer, left)

/-- Both lengths are numbers that `(int)` keeps. -/
def mimeGlobalWrp (length : ℤ) : ℤ → Option Bytes → Option Bytes × ℤ := wrapFilter (wrpMachine length)

def mimeGlobalQpwrp (length : ℤ) : ℤ → Option Bytes → Option Bytes × ℤ :=
  wrapFilter (qpwrpMachine length)

def eolcandidate (c : UInt8) : Bool := c = 13 || c = 10

/-- `last` is the break that the next byte may belong to, or 0. -/
def eolprocess (marker : Bytes) (c last : UInt8) : UInt8 × Bytes :=
  if eolcandidate c then
    if eolcandidate last then (0, if c = last then marker else []) else (c, marker)
  else (0, [c])

def eolMachine (marker : Bytes) : Transducer UInt8 UInt8 UInt8 where
  init := 0
  step last c := eolprocess marker c last
  finish _ := []

def mimeGlobalEol (marker : Option Bytes) (ctx : UInt8) (B : Option Bytes) : Option Bytes × UInt8 :=
  match B with
  | none => (none, 0)
  | some B => let (ctx, buffer) := (eolMachine (marker.elim CRLF cstring)).feed ctx B; (some buffer, ctx)

/-- Two after a line break, one after its first byte. -/
def dot (c : UInt8) (state : ℕ) : ℕ × Bytes :=
  if c = 13 then (1, [c])
  else if c = 10 then (if state = 1 then 2 else 0, [c])
  else if c = 46 then (0, if state = 2 then [c, 46] else [c])
  else (0, [c])

def dotMachine : Transducer ℕ UInt8 UInt8 where
  init := 2
  step state c := dot c state
  finish _ := []

def mimeGlobalDot (state : ℕ) (D : Option Bytes) : Option Bytes × ℕ :=
  match D with
  | none => (none, 2)
  | some D => let (state, buffer) := dotMachine.feed state D; (some buffer, state)

/-! ## `mime.lua` -/

def encodeBase64 : Ltn12.Filter (Option Bytes) := filterCycle mimeGlobalB64

def encodeQuotedPrintable (binary : Bool) : Ltn12.Filter (Option Bytes) :=
  filterCycle (mimeGlobalQp (some (if binary then bytes "=0D=0A" else CRLF)))

def decodeBase64 : Ltn12.Filter (Option Bytes) := filterCycle mimeGlobalUnb64

def decodeQuotedPrintable : Ltn12.Filter (Option Bytes) := filterCycle mimeGlobalUnqp

/-- `wrapt['text']`, which is `wrapt['base64']` and `wrapt['default']` as well. -/
def wrapText (length : Option ℤ) : Ltn12.Filter ℤ := filterCycle (mimeGlobalWrp (length.getD 76))

def wrapQuotedPrintable : Ltn12.Filter ℤ := filterCycle (mimeGlobalQpwrp 76)

def normalize (marker : Option Bytes) : Ltn12.Filter UInt8 := filterCycle (mimeGlobalEol marker)

def stuff : Ltn12.Filter ℕ := filterCycle mimeGlobalDot

/-! ## Filters as machines -/

/-- Reading the waiting bytes again changes nothing, so the filter does what its machine does. -/
theorem stringFilter_realises {T : Transducer Bytes UInt8 UInt8} {P : Bytes → Prop}
    (hstep : ∀ s c, P s → P (T.step s c).1) (hagain : ∀ s, P s → T.feed [] s = (s, []))
    (hpad : ∀ s, P s → cstring (T.finish s) = [] → T.finish s = []) :
    Realises (filterCycle (stringFilter T)) T (fun C s => C = some s ∧ P s) (· = none) where
  feed := by
    rintro _ s ⟨rfl, hs⟩ D
    refine ⟨some (T.feed s D).1, ?_, rfl, feed_invariant hstep hs D⟩
    simp only [filterCycle, stringFilter, hagain s hs, List.nil_append]
  last := by
    rintro _ s ⟨rfl, hs⟩
    refine ⟨none, ?_, rfl⟩
    simp only [filterCycle, stringFilter, hagain s hs, List.nil_append, filled]
    by_cases hfin : T.finish s = []
    · simp [hfin, cstring]
    · rw [if_neg fun h => hfin (hpad s hs h), if_neg hfin]
  done := by
    rintro _ rfl
    exact ⟨none, rfl, rfl⟩

theorem wrapFilter_realises {T : Transducer ℤ UInt8 UInt8} (hfin : T.finish T.init = []) :
    Realises (filterCycle (wrapFilter T)) T (· = ·) (· = T.init) where
  feed := by
    rintro _ s rfl c
    exact ⟨_, rfl, rfl⟩
  last := by
    rintro _ s rfl
    exact ⟨_, rfl, rfl⟩
  done := by
    rintro _ rfl
    exact ⟨T.init, by simp [filterCycle, wrapFilter, hfin, filled], rfl⟩

theorem wrapText_realises (length : Option ℤ) :
    Realises (wrapText length) (wrpMachine (length.getD 76)) (· = ·) (· = length.getD 76) :=
  wrapFilter_realises (by simp [wrpMachine])

theorem wrapQuotedPrintable_realises :
    Realises wrapQuotedPrintable (qpwrpMachine 76) (· = ·) (· = 76) :=
  wrapFilter_realises (by simp [qpwrpMachine])

theorem normalize_realises (marker : Option Bytes) :
    Realises (normalize marker) (eolMachine (marker.elim CRLF cstring)) (· = ·) fun _ => True where
  feed := by
    rintro _ s rfl c
    exact ⟨_, rfl, rfl⟩
  last := by
    rintro _ s rfl
    exact ⟨_, rfl, trivial⟩
  done _ := ⟨_, rfl, trivial⟩

theorem stuff_realises : Realises stuff dotMachine (· = ·) fun _ => True where
  feed := by
    rintro _ s rfl c
    exact ⟨_, rfl, rfl⟩
  last := by
    rintro _ s rfl
    exact ⟨_, rfl, trivial⟩
  done _ := ⟨_, rfl, trivial⟩

end LuaTT.Mime
