import LuaTT.Socket.Ltn12

/-! What passes through chains and pumps. A chained source gives what the machine of its filter makes of
the chunks before, a chained sink passes the same on, and a pump moves everything there is; how the data
were cut into chunks makes no difference. -/
namespace LuaTT.Ltn12
open Lua Streaming Transducer
set_option autoImplicit false

variable {σ τ ω ρ : Type}

theorem filled_of_ne {out : Bytes} (h : out ≠ []) : filled out = some out := if_neg h

/-! ## `source.chain` -/

section SourceChain
variable {src : Source τ} {f : Filter σ} {T : Transducer ρ UInt8 UInt8} {R : σ → ρ → Prop}
  {Done : σ → Prop}

/-- The reply, and what the chained source gives afterwards. -/
inductive Next (F : ℕ) (src : Source τ) (f : Filter σ) (e : Option Bytes) :
    Except Stop (Reply × ChainState τ σ) → List Bytes → Prop
  | nil {st : ChainState τ σ} : Next F src f e (.ok (⟨none, e⟩, st)) []
  | cons {st : ChainState τ σ} {c : Bytes} {cs : List Bytes}
      (rest : Ends (sourceChain F src f) e st cs) : Next F src f e (.ok (⟨some c, none⟩, st)) (c :: cs)

theorem Next.ends {F : ℕ} {e : Option Bytes} {st : ChainState τ σ} {ds : List Bytes}
    (hout : st.lastOut ≠ none) (h : Next F src f e (chainLoop src f F st) ds) :
    Ends (sourceChain F src f) e st ds := by
  have hcall : sourceChain F src f st = chainLoop src f F st := if_neg hout
  generalize hr : chainLoop src f F st = r at h
  cases h with
  | nil => exact .nil (hcall.trans hr)
  | cons rest => exact .cons (hcall.trans hr) rest

/-- Past the end the chained source gives nothing. -/
theorem yields_done (hf : Realises f T R Done) (F : ℕ) (st : ChainState τ σ) (hs : Done st.filter)
    (hin : st.lastIn = none) (hfeed : st.feeding = false) (hout : st.lastOut ≠ none) :
    Yields (sourceChain (F + 1) src f) st [] := by
  obtain ⟨s', hs', -⟩ := hf.done hs
  apply Next.ends hout
  simp only [chainLoop, hfeed, Bool.false_eq_true, if_false, hin, hs']
  exact .nil

/-- In the eating state the filter has no more for the chunk, and the loop goes on as if feeding. -/
theorem chainLoop_eating (hf : Realises f T R Done) (n : ℕ) (st : ChainState τ σ) {p : ρ}
    (hs : R st.filter p) (hin : st.lastIn = some []) (hfeed : st.feeding = false) :
    ∃ st', chainLoop src f (n + 1) st = chainLoop src f n st' ∧ st'.src = st.src ∧
      st'.feeding = true ∧ R st'.filter p := by
  obtain ⟨s', hs', hR⟩ := hf.feed hs []
  refine ⟨⟨st.src, s', some [], some [], true⟩, ?_, rfl, rfl, hR⟩
  simp only [chainLoop, hfeed, Bool.false_eq_true, if_false, hin, hs', Transducer.feed_nil, if_true]

/-- One round of the feeding state, by what the filter gives for the chunk. -/
theorem chainLoop_last {n : ℕ} {st : ChainState τ σ} {t' : τ} {s' : σ} (hfeed : st.feeding = true)
    (h : src st.src = .ok (⟨none, none⟩, t')) (hs : f none st.filter = (none, s')) :
    chainLoop src f (n + 1) st = .ok (⟨none, none⟩, ⟨t', s', none, none, true⟩) := by
  simp only [chainLoop, hfeed, if_true, h]
  simp [bind, Except.bind, pure, Except.pure, hs]

theorem chainLoop_error {n : ℕ} {st : ChainState τ σ} {t' : τ} {chunk : Option Bytes} {err : Bytes}
    (hfeed : st.feeding = true) (h : src st.src = .ok (⟨chunk, some err⟩, t')) :
    chainLoop src f (n + 1) st = .ok (⟨none, some err⟩, { st with src := t', lastIn := chunk }) := by
  simp only [chainLoop, hfeed, if_true, h]
  simp [bind, Except.bind, pure, Except.pure]

theorem chainLoop_more {n : ℕ} {st : ChainState τ σ} {t' : τ} {s' : σ} {chunk : Option Bytes}
    (hfeed : st.feeding = true) (h : src st.src = .ok (⟨chunk, none⟩, t'))
    (hs : f chunk st.filter = (some [], s')) :
    chainLoop src f (n + 1) st = chainLoop src f n ⟨t', s', chunk, some [], true⟩ := by
  simp only [chainLoop, hfeed, if_true, h]
  simp [bind, Except.bind, hs]

theorem chainLoop_give {n : ℕ} {st : ChainState τ σ} {t' : τ} {s' : σ} {chunk : Option Bytes}
    {out : Bytes} (hne : out ≠ []) (hfeed : st.feeding = true)
    (h : src st.src = .ok (⟨chunk, none⟩, t')) (hs : f chunk st.filter = (some out, s')) :
    chainLoop src f (n + 1) st =
      .ok (⟨some out, none⟩, ⟨t', s', chunk.map fun _ => [], some out, false⟩) := by
  obtain ⟨b, rest, rfl⟩ := List.exists_cons_of_ne_nil hne
  simp only [chainLoop, hfeed, if_true, h]
  simp [bind, Except.bind, pure, Except.pure, hs]

/-- What is written at the end: nothing if the source has failed. -/
def ending (T : Transducer ρ UInt8 UInt8) (e : Option Bytes) (p : ρ) : Bytes :=
  if e = none then T.finish p else []

/-- The source has ended: the filter finishes, unless the source has failed. -/
theorem chainLoop_ended (hf : Realises f T R Done) {e : Option Bytes} {st : ChainState τ σ} {t' : τ} {p : ρ}
    (h : src st.src = .ok (⟨none, e⟩, t')) (hfeed : st.feeding = true) (hs : R st.filter p) (F n : ℕ) :
    ∃ ds, Next (F + 1) src f e (chainLoop src f (n + 1) st) ds ∧ ds.length ≤ 1 ∧ ds.flatten = ending T e p := by
  cases e with
  | some err =>
    refine ⟨[], ?_, by simp, by simp [ending]⟩
    rw [chainLoop_error hfeed h]
    exact .nil
  | none =>
    obtain ⟨s', hs', hdone⟩ := hf.last hs
    by_cases hfin : T.finish p = []
    · refine ⟨[], ?_, by simp, by simp [ending, hfin]⟩
      rw [filled, if_pos hfin] at hs'
      rw [chainLoop_last hfeed h hs']
      exact .nil
    · refine ⟨[T.finish p], ?_, by simp, by simp [ending]⟩
      rw [filled_of_ne hfin] at hs'
      rw [chainLoop_give hfin hfeed h hs']
      exact .cons (yields_done hf F ⟨t', s', none, some (T.finish p), false⟩ hdone rfl rfl (by simp))

theorem chainLoop_next (hf : Realises f T R Done) {e : Option Bytes} {t : τ} {cs : List Bytes}
    (hsrc : Ends src e t cs) {F : ℕ} (hF : cs.length + 2 ≤ F) (n : ℕ) (hn : cs.length + 1 ≤ n)
    (st : ChainState τ σ) {p : ρ} (ht : st.src = t) (hfeed : st.feeding = true) (hs : R st.filter p) :
    ∃ ds, Next F src f e (chainLoop src f n st) ds ∧ ds.length ≤ cs.length + 1 ∧
      ds.flatten = (T.feed p cs.flatten).2 ++ ending T e (T.feed p cs.flatten).1 := by
  induction hsrc generalizing n st p with
  | @nil t t' h =>
    obtain ⟨n, rfl⟩ : ∃ k, n = k + 1 := ⟨n - 1, by omega⟩
    obtain ⟨F, rfl⟩ : ∃ k, F = k + 1 := ⟨F - 1, by omega⟩
    subst ht
    obtain ⟨ds, hnext, hlen, hds⟩ := chainLoop_ended hf h hfeed hs F n
    exact ⟨ds, hnext, hlen, by simpa using hds⟩
  | @cons t t' c cs h rest ih =>
    obtain ⟨n, rfl⟩ : ∃ k, n = k + 1 := ⟨n - 1, by omega⟩
    simp only [List.length_cons] at hF hn
    obtain ⟨s', hs', hR⟩ := hf.feed hs c
    have hflat (p' : ρ) (d : Bytes) (hp : (T.feed p c).1 = p') (hd : (T.feed p c).2 = d) :
        (T.feed p (c :: cs).flatten).2 ++ ending T e (T.feed p (c :: cs).flatten).1 =
          d ++ ((T.feed p' cs.flatten).2 ++ ending T e (T.feed p' cs.flatten).1) := by
      rw [List.flatten_cons, feed_append, hp, hd, List.append_assoc]
    subst ht
    by_cases hd : (T.feed p c).2 = []
    · -- the chunk gives nothing yet: the loop asks for the next one
      obtain ⟨ds, hnext, hlen, hds⟩ := ih (by omega) n (by omega)
        ⟨t', s', some c, some [], true⟩ rfl rfl hR
      rw [hd] at hs'
      refine ⟨ds, ?_, by simp only [List.length_cons]; omega, ?_⟩
      · rw [chainLoop_more hfeed h hs']
        exact hnext
      · rw [hflat _ _ rfl hd, hds, List.nil_append]
    · -- the next call finds the filter with nothing more for this chunk
      obtain ⟨F, rfl⟩ : ∃ k, F = k + 1 := ⟨F - 1, by omega⟩
      obtain ⟨st', hloop, hsrc', hfeed', hR'⟩ :
          ∃ st', chainLoop src f (F + 1) ⟨t', s', some [], some (T.feed p c).2, false⟩ =
            chainLoop src f F st' ∧ st'.src = t' ∧ st'.feeding = true ∧ R st'.filter (T.feed p c).1 :=
        chainLoop_eating hf F _ hR rfl rfl
      obtain ⟨ds, hnext, hlen, hds⟩ := ih (by omega) F (by omega) st' hsrc' hfeed' hR'
      refine ⟨(T.feed p c).2 :: ds, ?_, by simp only [List.length_cons]; omega, ?_⟩
      · rw [chainLoop_give hd hfeed h hs']
        refine .cons (Next.ends (by simp) ?_)
        rw [Option.map_some, hloop]
        exact hnext
      · rw [hflat _ _ rfl rfl, List.flatten_cons, hds]

/-- A chained source gives what the machine of its filter makes of the chunks, and fails when its source
does. -/
theorem sourceChain_ends (hf : Realises f T R Done) {e : Option Bytes} {t : τ} {cs : List Bytes}
    (hsrc : Ends src e t cs) {F : ℕ} (hF : cs.length + 2 ≤ F) {s : σ} {p : ρ} (hs : R s p) :
    ∃ ds, Ends (sourceChain F src f) e (.start t s) ds ∧ ds.length ≤ cs.length + 1 ∧
      ds.flatten = (T.feed p cs.flatten).2 ++ ending T e (T.feed p cs.flatten).1 := by
  obtain ⟨ds, hnext, hlen, hds⟩ := chainLoop_next hf hsrc hF F (by omega) (.start t s) rfl rfl hs
  exact ⟨ds, hnext.ends (by simp [ChainState.start]), hlen, hds⟩

theorem sourceChain_yields (hf : Realises f T R Done) {t : τ} {cs : List Bytes}
    (hsrc : Yields src t cs) {F : ℕ} (hF : cs.length + 2 ≤ F) {s : σ} (hs : R s T.init) :
    ∃ ds, Yields (sourceChain F src f) (.start t s) ds ∧ ds.length ≤ cs.length + 1 ∧
      ds.flatten = T.run cs.flatten := sourceChain_ends hf hsrc hF hs

end SourceChain

/-! ## `sink.chain` -/

section SinkChain
variable {f : Filter σ} {T : Transducer ρ UInt8 UInt8} {R : σ → ρ → Prop} {Done : σ → Prop}
  {snk : Sink ω} {contents : ω → Bytes}

theorem sinkTable_collects : Collects sinkTable List.flatten where
  some c _ t := ⟨t ++ [c], rfl, by simp⟩
  none _ t := ⟨t, by simp [sinkTable], rfl⟩

theorem sinkTable_takes : Takes sinkTable (fun t s => t.flatten = s) fun t s => t.flatten = s where
  some {t s} ht c _ := ⟨t ++ [c], rfl, by simp [ht]⟩
  none {t s} ht _ := ⟨t, by simp [sinkTable], ht⟩

theorem sinkLoop_succ {done err filtered : Option Bytes} {w w' : ω}
    (h : snk filtered err w = .ok (⟨true, none⟩, w')) (n : ℕ) (s : σ) :
    sinkLoop f snk done err (n + 1) filtered (s, w) =
      if filtered = done then .ok (⟨true, none⟩, s, w')
      else sinkLoop f snk done err n (f done s).1 ((f done s).2, w') := by
  simp only [sinkLoop, h]
  rfl

/-- One chunk: the filter is asked until it has no more, and everything goes on. -/
theorem sinkChain_some (hf : Realises f T R Done) (hsnk : Collects snk contents) {s : σ} {p : ρ}
    (hs : R s p) (c : Bytes) (err : Option Bytes) (w : ω) :
    ∃ s' w', sinkChain 3 f snk (some c) err (s, w) = .ok (⟨true, none⟩, s', w') ∧
      R s' (T.feed p c).1 ∧ contents w' = contents w ++ (T.feed p c).2 := by
  by_cases hc : c = []
  · refine ⟨s, w, ?_, ?_, ?_⟩
    · simp [sinkChain, hc]
    · simpa [hc] using hs
    · simp [hc]
  · obtain ⟨s1, hs1, hR1⟩ := hf.feed hs c
    obtain ⟨w1, hw1, hcont1⟩ := hsnk.some (T.feed p c).2 err w
    have hne : some c ≠ some ([] : Bytes) := fun h => hc (Option.some.inj h)
    by_cases hd : (T.feed p c).2 = []
    · refine ⟨s1, w1, ?_, hR1, hcont1⟩
      simp only [sinkChain, if_pos hne, hs1, Option.map_some]
      rw [sinkLoop_succ hw1, if_pos (congrArg some hd)]
    · obtain ⟨s2, hs2, hR2⟩ := hf.feed hR1 []
      obtain ⟨w2, hw2, hcont2⟩ := hsnk.some [] err w1
      refine ⟨s2, w2, ?_, by simpa using hR2, by rw [hcont2, hcont1, List.append_nil]⟩
      rw [Transducer.feed_nil] at hs2
      simp only [sinkChain, if_pos hne, hs1, Option.map_some]
      rw [sinkLoop_succ hw1, if_neg fun h => hd (Option.some.inj h), hs2, sinkLoop_succ hw2, if_pos rfl]

/-- The end: the filter finishes. -/
theorem sinkChain_none (hf : Realises f T R Done) (hsnk : Collects snk contents) {s : σ} {p : ρ}
    (hs : R s p) (err : Option Bytes) (w : ω) :
    ∃ s' w', sinkChain 3 f snk none err (s, w) = .ok (⟨true, none⟩, s', w') ∧
      contents w' = contents w ++ T.finish p := by
  obtain ⟨s1, hs1, hdone⟩ := hf.last hs
  have hne : (none : Option Bytes) ≠ some [] := by simp
  by_cases hd : T.finish p = []
  · obtain ⟨w1, hw1, hcont1⟩ := hsnk.none err w
    refine ⟨s1, w1, ?_, by rw [hcont1, hd, List.append_nil]⟩
    rw [filled, if_pos hd] at hs1
    simp only [sinkChain, if_pos hne, hs1, Option.map_none]
    rw [sinkLoop_succ hw1, if_pos rfl]
  · obtain ⟨w1, hw1, hcont1⟩ := hsnk.some (T.finish p) err w
    obtain ⟨s2, hs2, -⟩ := hf.done hdone
    obtain ⟨w2, hw2, hcont2⟩ := hsnk.none err w1
    refine ⟨s2, w2, ?_, by rw [hcont2, hcont1]⟩
    rw [filled_of_ne hd] at hs1
    simp only [sinkChain, if_pos hne, hs1, Option.map_none]
    rw [sinkLoop_succ hw1, if_neg (by simp), hs2, sinkLoop_succ hw2, if_pos rfl]

theorem sinkChain_takes (hf : Realises f T R Done) (hsnk : Collects snk contents) (p : ρ) (w₀ : ω) :
    Takes (sinkChain 3 f snk)
      (fun (s, w) text => R s (T.feed p text).1 ∧ contents w = contents w₀ ++ (T.feed p text).2)
      (fun (_, w) text =>
        contents w = contents w₀ ++ ((T.feed p text).2 ++ T.finish (T.feed p text).1)) where
  some := by
    rintro ⟨s, w⟩ text ⟨hs, hw⟩ c err
    obtain ⟨s', w', hcall, hR, hcont⟩ := sinkChain_some hf hsnk hs c err w
    refine ⟨(s', w'), hcall, ?_, ?_⟩
    · rw [feed_append]
      exact hR
    · show contents w' = contents w₀ ++ (T.feed p (text ++ c)).2
      rw [feed_append, hcont, hw, List.append_assoc]
  none := by
    rintro ⟨s, w⟩ text ⟨hs, hw⟩ err
    obtain ⟨s', w', hcall, hcont⟩ := sinkChain_none hf hsnk hs err w
    refine ⟨(s', w'), hcall, ?_⟩
    show contents w' = contents w₀ ++ ((T.feed p text).2 ++ T.finish (T.feed p text).1)
    rw [hcont, hw, List.append_assoc]

end SinkChain

/-! ## `pump.all` -/

section Pump
variable {src : Source τ} {snk : Sink ω} {P Q : ω → Bytes → Prop}

theorem pumpAll_some {t t' : τ} {c : Bytes} {w w' : ω} (hsrc : src t = .ok (⟨some c, none⟩, t'))
    (hsnk : snk (some c) none w = .ok (⟨true, none⟩, w')) (F : ℕ) :
    pumpAll src snk (F + 1) (t, w) = pumpAll src snk F (t', w') := by
  simp only [pumpAll, pumpStep, hsrc]
  show (snk (some c) none w >>= _) >>= _ = _
  rw [hsnk]
  rfl

theorem pumpAll_none {t t' : τ} {e : Option Bytes} {w w' : ω} (hsrc : src t = .ok (⟨none, e⟩, t'))
    (hsnk : snk none e w = .ok (⟨true, none⟩, w')) (F : ℕ) :
    pumpAll src snk (F + 1) (t, w) = .ok (⟨e.isNone, e⟩, t', w') := by
  simp only [pumpAll, pumpStep, hsrc]
  show (snk none e w >>= _) >>= _ = _
  rw [hsnk]
  cases e <;> rfl

/-- A pump moves all there is, and says how the source has ended. -/
theorem pumpAll_takes {e : Option Bytes} {t : τ} {cs : List Bytes} (hsrc : Ends src e t cs)
    (hsnk : Takes snk P Q) {F : ℕ} (hF : cs.length + 1 ≤ F) {w : ω} {s : Bytes} (hw : P w s) :
    ∃ t' w', pumpAll src snk F (t, w) = .ok (⟨e.isNone, e⟩, t', w') ∧ Q w' (s ++ cs.flatten) := by
  induction hsrc generalizing F w s with
  | @nil t t' h =>
    obtain ⟨F, rfl⟩ : ∃ k, F = k + 1 := ⟨F - 1, by omega⟩
    obtain ⟨w', hcall, hQ⟩ := hsnk.none hw e
    exact ⟨t', w', pumpAll_none h hcall F, by simpa using hQ⟩
  | @cons t t' c cs h rest ih =>
    obtain ⟨F, rfl⟩ : ∃ k, F = k + 1 := ⟨F - 1, by omega⟩
    simp only [List.length_cons] at hF
    obtain ⟨w1, hcall, hP⟩ := hsnk.some hw c none
    obtain ⟨t2, w2, hpump, hQ⟩ := ih (F := F) (by omega) hP
    refine ⟨t2, w2, ?_, by simpa using hQ⟩
    rw [pumpAll_some h hcall]
    exact hpump

theorem pumpAll_sinkChain {f : Filter σ} {T : Transducer ρ UInt8 UInt8} {R : σ → ρ → Prop}
    {Done : σ → Prop} {contents : ω → Bytes} {t : τ} {cs : List Bytes} (hsrc : Yields src t cs)
    (hf : Realises f T R Done) (hsnk : Collects snk contents) {F : ℕ} (hF : cs.length + 1 ≤ F)
    {s : σ} {p : ρ} (hs : R s p) (w : ω) :
    ∃ t' s' w', pumpAll src (sinkChain 3 f snk) F (t, s, w) = .ok (⟨true, none⟩, t', s', w') ∧
      contents w' = contents w ++ ((T.feed p cs.flatten).2 ++ T.finish (T.feed p cs.flatten).1) := by
  obtain ⟨t', ⟨s', w'⟩, hpump, hcont⟩ := pumpAll_takes hsrc (sinkChain_takes hf hsnk p w) hF
    (w := (s, w)) (s := []) ⟨hs, (List.append_nil _).symm⟩
  exact ⟨t', s', w', hpump, hcont⟩

end Pump
end LuaTT.Ltn12
