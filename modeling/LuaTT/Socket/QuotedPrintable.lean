import LuaTT.Socket.Base64

/-! Quoted-printable there and back. The encoder looks up to two bytes ahead to know a blank at the end of a
line; the soft line breaks that are put into its text later are read as nothing. -/
namespace LuaTT.Mime
open Lua Ltn12 Streaming Transducer
set_option autoImplicit false

/-! ## Single bytes -/

/-- A statement about each byte is one about 256 numbers. -/
theorem forall_uint8 {p : UInt8 → Prop} (h : ∀ i < 256, p i.toUInt8) (c : UInt8) : p c := by
  have hc : c.toNat.toUInt8 = c := UInt8.toNat_inj.mp (by simp)
  exact hc ▸ h c.toNat c.toNat_lt

theorem unqp_quote (c : UInt8) : unqpMachine.feed [] (qpquote c) = ([], [c]) := by
  revert c
  apply forall_uint8
  decide +kernel

theorem unqp_plain (c : UInt8) (h : qpclass c = .plain ∨ qpclass c = .ifLast) :
    unqpMachine.feed [] [c] = ([], [c]) := by
  revert c
  apply forall_uint8
  decide +kernel

theorem unqp_soft : unqpMachine.feed [] EQCRLF = ([], []) := by decide

theorem unqp_append {s t d e : Bytes} (hs : unqpMachine.feed [] s = ([], d))
    (ht : unqpMachine.feed [] t = ([], e)) : unqpMachine.feed [] (s ++ t) = ([], d ++ e) := by
  rw [feed_append, hs, ht]

/-! ## The encoder -/

/-- What the encoder may hold back: a CR, or a blank and the byte after it. -/
inductive Waiting : Bytes → Prop
  | nil : Waiting []
  | cr {c : UInt8} (h : qpclass c = .cr) : Waiting [c]
  | blank {c : UInt8} (h : qpclass c = .ifLast) : Waiting [c]
  | blankNext {c : UInt8} (h : qpclass c = .ifLast) (d : UInt8) : Waiting [c, d]

/-- The marker stands for a line break. -/
def Marks (marker : Bytes) : Prop := unqpMachine.feed [] marker = ([], CRLF)

section Encoder
variable {marker : Bytes}

/-- Of the bytes `s`, the encoder has written what it does not hold. -/
structure Written (s : Bytes) (r : Bytes × Bytes) : Prop where
  waiting : Waiting r.1
  text : ∃ d, unqpMachine.feed [] r.2 = ([], d) ∧ d ++ r.1 = s

theorem Written.cons {c : UInt8} {out s : Bytes} {r : Bytes × Bytes}
    (hout : unqpMachine.feed [] out = ([], [c])) (h : Written s r) : Written (c :: s) (r.1, out ++ r.2) := by
  obtain ⟨d, hd, hs⟩ := h.text
  exact ⟨h.waiting, [c] ++ d, unqp_append hout hd, by rw [← hs]; rfl⟩

theorem Written.keep {s : Bytes} (h : Waiting s) : Written s (s, []) := ⟨h, [], rfl, rfl⟩

theorem eq_cr {c : UInt8} (h : qpclass c = .cr) : c = 13 := by
  revert c
  apply forall_uint8
  decide +kernel

theorem written_one (c : UInt8) : Written [c] (qploop marker [c]) := by
  have hnil : Written [] (qploop marker []) := .keep .nil
  cases hc : qpclass c with
  | plain =>
    simp only [qploop, hc]
    exact Written.cons (unqp_plain c (.inl hc)) hnil
  | quoted =>
    simp only [qploop, hc]
    exact Written.cons (unqp_quote c) hnil
  | cr =>
    simp only [qploop, hc]
    exact .keep (.cr hc)
  | ifLast =>
    simp only [qploop, hc]
    exact .keep (.blank hc)

theorem written_two (hm : Marks marker) (c d : UInt8) : Written [c, d] (qploop marker [c, d]) := by
  have hone : Written [d] (qploop marker [d]) := written_one d
  cases hc : qpclass c with
  | plain =>
    rw [qploop]
    simp only [hc]
    exact Written.cons (unqp_plain c (.inl hc)) hone
  | quoted =>
    rw [qploop]
    simp only [hc]
    exact Written.cons (unqp_quote c) hone
  | cr =>
    rw [qploop]
    simp only [hc]
    split_ifs with hd
    · refine ⟨.nil, CRLF, hm, ?_⟩
      rw [eq_cr hc, hd]
      rfl
    · exact Written.cons (unqp_quote c) hone
  | ifLast =>
    rw [qploop]
    simp only [hc]
    exact .keep (.blankNext hc d)

theorem written_three (hm : Marks marker) {c : UInt8} (hc : qpclass c = .ifLast) (d e : UInt8) :
    Written [c, d, e] (qploop marker [c, d, e]) := by
  have htwo : Written [d, e] (qploop marker [d, e]) := written_two hm d e
  rw [qploop]
  simp only [hc]
  split_ifs with hde
  · refine ⟨.nil, [c] ++ CRLF, unqp_append (unqp_quote c) hm, ?_⟩
    rw [hde.1, hde.2]
    rfl
  · exact Written.cons (unqp_plain c (.inr hc)) htwo

theorem written_encode (hm : Marks marker) {s : Bytes} (hs : Waiting s) (c : UInt8) :
    Written (s ++ [c]) (qpencode marker c s) := by
  cases hs with
  | nil => exact written_one c
  | cr h => exact written_two hm _ c
  | blank h => exact written_two hm _ c
  | blankNext h d => exact written_three hm h d c

theorem unqp_pad (s : Bytes) :
    unqpMachine.feed [] (s.flatMap fun c => if qpclass c = .plain then [c] else qpquote c) = ([], s) := by
  induction s with
  | nil => rfl
  | cons c s ih =>
    rw [List.flatMap_cons]
    apply unqp_append (d := [c]) _ ih
    split_ifs with hc
    · exact unqp_plain c (.inl hc)
    · exact unqp_quote c

/-- All that the encoder has written decodes to the bytes it does not hold. -/
theorem qp_keepsUp (hm : Marks marker) : KeepsUp (qpMachine marker) unqpMachine Waiting id where
  init := .nil
  held_init := rfl
  step s c hs := ⟨(written_encode hm hs c).waiting, (written_encode hm hs c).text⟩
  finish s _ := by
    have hsoft : unqpMachine.feed [] (if s ≠ [] then EQCRLF else []) = ([], []) := by
      split_ifs
      · exact unqp_soft
      · rfl
    have hpad := unqp_append (unqp_pad s) hsoft
    show (unqpMachine.feed [] (qppad s)).2 ++ [] = s
    rw [qppad, hpad, List.append_nil, List.append_nil]

theorem marks_crlf : Marks CRLF := by
  show unqpMachine.feed [] CRLF = ([], CRLF)
  decide

theorem marks_binary : Marks (bytes "=0D=0A") := by
  show unqpMachine.feed [] (bytes "=0D=0A") = ([], CRLF)
  decide +kernel

end Encoder

/-! ## Soft line breaks -/

/-- What the encoder writes at a time: a byte as it is, a quoted one, or a line break, hard or soft. -/
inductive Piece : Bytes → Prop
  | plain {c : UInt8} (h : qpclass c = .plain ∨ qpclass c = .ifLast) : Piece [c]
  | quote (c : UInt8) : Piece (qpquote c)
  | hard : Piece CRLF
  | soft : Piece EQCRLF

/-- A text of such pieces. -/
inductive Pieces : Bytes → Prop
  | nil : Pieces []
  | cons {s t : Bytes} (hs : Piece s) (ht : Pieces t) : Pieces (s ++ t)

theorem Pieces.append {s t : Bytes} (hs : Pieces s) (ht : Pieces t) : Pieces (s ++ t) := by
  induction hs with
  | nil => exact ht
  | cons h _ ih =>
    rw [List.append_assoc]
    exact .cons h ih

theorem Piece.pieces {s : Bytes} (h : Piece s) : Pieces s := by
  simpa using Pieces.cons h .nil

section Text
variable {marker : Bytes}

theorem qploop_pieces (hm : Pieces marker) (s : Bytes) : Pieces (qploop marker s).2 := by
  induction s with
  | nil => exact .nil
  | cons c s ih =>
    unfold qploop
    cases hc : qpclass c with
    | plain => exact .cons (.plain (.inl hc)) ih
    | quoted => exact .cons (.quote c) ih
    | cr =>
      cases s with
      | nil => exact .nil
      | cons d s =>
        simp only
        split_ifs
        · exact hm
        · exact .cons (.quote c) ih
    | ifLast =>
      match s, ih with
      | [], _ | [_], _ => exact .nil
      | d :: e :: s, ih =>
        simp only
        split_ifs
        · exact .cons (.quote c) hm
        · exact .cons (.plain (.inr hc)) ih

theorem qppad_pieces (s : Bytes) : Pieces (qppad s) := by
  have hflat : Pieces (s.flatMap fun c => if qpclass c = .plain then [c] else qpquote c) := by
    induction s with
    | nil => exact .nil
    | cons c s ih =>
      rw [List.flatMap_cons]
      split_ifs with hc
      · exact .cons (.plain (.inl hc)) ih
      · exact .cons (.quote c) ih
  apply hflat.append
  split_ifs
  · exact Piece.soft.pieces
  · exact .nil

theorem qp_pieces (hm : Pieces marker) (s : Bytes) : Pieces ((qpMachine marker).run s) := by
  have hfeed (s p : Bytes) : Pieces ((qpMachine marker).feed p s).2 := by
    induction s generalizing p with
    | nil => exact .nil
    | cons c s ih => exact (qploop_pieces hm (p ++ [c])).append (ih _)
  exact (hfeed s []).append (qppad_pieces _)

end Text

theorem pieces_crlf : Pieces CRLF := Piece.hard.pieces

theorem pieces_binary : Pieces (bytes "=0D=0A") :=
  (Piece.quote 13).pieces.append (Piece.quote 10).pieces

/-- Bytes that are neither breaks nor begin an escape. -/
theorem plain_ne (c : UInt8) (h : qpclass c = .plain ∨ qpclass c = .ifLast) : c ≠ 13 ∧ c ≠ 10 ∧ c ≠ 61 := by
  revert c
  apply forall_uint8
  decide +kernel

theorem digit_ne : ∀ i < 16, qpbase.getD i 0 ≠ 13 ∧ qpbase.getD i 0 ≠ 10 ∧ qpbase.getD i 0 ≠ 61 := by
  decide +kernel

section Wrap
variable {length left : ℤ}

theorem qpwrp_plain {c : UInt8} (hc : c ≠ 13 ∧ c ≠ 10 ∧ c ≠ 61) :
    (qpwrpMachine length).step left c =
      if left ≤ 1 then (length - 1, EQCRLF ++ [c]) else (left - 1, [c]) := by
  simp only [qpwrpMachine, if_neg hc.1, if_neg hc.2.1, if_neg hc.2.2]

/-- An escape goes whole into the line, or into the next one. -/
theorem qpwrp_quote (hlength : 4 ≤ length) (c : UInt8) : (qpwrpMachine length).feed left (qpquote c) =
    if left ≤ 3 then (length - 3, EQCRLF ++ qpquote c) else (left - 3, qpquote c) := by
  have h1 := digit_ne (c.toNat / 16) (by have := c.toNat_lt; omega)
  have h2 := digit_ne (c.toNat % 16) (Nat.mod_lt _ (by decide))
  have h61 : (qpwrpMachine length).step left 61 =
      if left ≤ 3 then (length - 1, EQCRLF ++ [61]) else (left - 1, [61]) := rfl
  have hminus (k : ℤ) : k - 1 - 1 - 1 = k - 3 := by omega
  rw [qpquote, feed_cons, feed_cons, feed_singleton, h61]
  split_ifs with hle
  · rw [qpwrp_plain h1, if_neg (by omega), qpwrp_plain h2, if_neg (by omega), hminus]
    rfl
  · rw [qpwrp_plain h1, if_neg (by omega), qpwrp_plain h2, if_neg (by omega), hminus]
    rfl

theorem qpwrp_soft : (qpwrpMachine length).feed left EQCRLF =
    (length, if left ≤ 3 then EQCRLF ++ EQCRLF else EQCRLF) := by
  have h61 : (qpwrpMachine length).step left 61 =
      if left ≤ 3 then (length - 1, EQCRLF ++ [61]) else (left - 1, [61]) := rfl
  rw [EQCRLF, feed_cons, h61]
  split_ifs <;> rfl

/-- A soft break never parts an escape, and a piece decodes to what it was; a byte still fits in the line. -/
theorem unqp_qpwrp_piece (hlength : 4 ≤ length) (hleft : 1 ≤ left ∧ left ≤ length) {s : Bytes}
    (hs : Piece s) :
    unqpMachine.feed [] ((qpwrpMachine length).feed left s).2 = unqpMachine.feed [] s ∧
      1 ≤ ((qpwrpMachine length).feed left s).1 ∧ ((qpwrpMachine length).feed left s).1 ≤ length := by
  cases hs with
  | @plain c h =>
    rw [feed_singleton, qpwrp_plain (plain_ne c h)]
    split_ifs with hle
    · refine ⟨?_, by omega, by omega⟩
      exact (unqp_append unqp_soft (unqp_plain c h)).trans (unqp_plain c h).symm
    · exact ⟨rfl, by omega, by omega⟩
  | quote c =>
    rw [qpwrp_quote hlength]
    split_ifs with hle
    · refine ⟨?_, by omega, by omega⟩
      exact (unqp_append unqp_soft (unqp_quote c)).trans (unqp_quote c).symm
    · exact ⟨rfl, by omega, by omega⟩
  | hard => exact ⟨rfl, by show 1 ≤ length; omega, le_refl length⟩
  | soft =>
    rw [qpwrp_soft]
    split_ifs
    · exact ⟨rfl, by omega, le_refl length⟩
    · exact ⟨rfl, by omega, le_refl length⟩

theorem unqp_clean {s : Bytes} (hs : Piece s) : (unqpMachine.feed [] s).1 = [] := by
  cases hs with
  | plain h => rw [unqp_plain _ h]
  | quote c => rw [unqp_quote]
  | hard => rfl
  | soft => rfl

theorem unqp_qpwrp (hlength : 4 ≤ length) (hleft : 1 ≤ left ∧ left ≤ length) {s : Bytes}
    (hs : Pieces s) : unqpMachine.feed [] ((qpwrpMachine length).feed left s).2 =
      unqpMachine.feed [] s := by
  induction hs generalizing left with
  | nil => rfl
  | @cons s t h _ ih =>
    obtain ⟨heq, hlow, hhigh⟩ := unqp_qpwrp_piece hlength hleft h
    have hfirst : unqpMachine.feed [] ((qpwrpMachine length).feed left s).2 =
        ([], (unqpMachine.feed [] s).2) := by
      rw [heq]
      exact Prod.ext (unqp_clean h) rfl
    have hplain : unqpMachine.feed [] s = ([], (unqpMachine.feed [] s).2) := heq ▸ hfirst
    rw [feed_append, feed_append, hfirst, feed_append, hplain, ih ⟨hlow, hhigh⟩]

theorem unqp_run {s d : Bytes} (h : unqpMachine.feed [] s = ([], d)) : unqpMachine.run s = d := by
  show (unqpMachine.feed [] s).2 ++ [] = d
  rw [h, List.append_nil]

theorem unqp_qpwrp_run (hlength : 4 ≤ length) {s : Bytes} (hs : Pieces s) :
    unqpMachine.run ((qpwrpMachine length).run s) = unqpMachine.run s := by
  have hclean : unqpMachine.feed [] s = ([], (unqpMachine.feed [] s).2) := by
    refine Prod.ext ?_ rfl
    induction hs with
    | nil => rfl
    | @cons s t h _ ih => rw [feed_append, unqp_clean h, ih]
  have hfin (left : ℤ) : unqpMachine.feed [] ((qpwrpMachine length).finish left) = ([], []) := by
    show unqpMachine.feed [] (if left < length then EQCRLF else []) = ([], [])
    split_ifs
    · exact unqp_soft
    · rfl
  have hwrap := (unqp_qpwrp hlength ⟨by omega, le_refl length⟩ hs).trans hclean
  have hrun : (qpwrpMachine length).run s = ((qpwrpMachine length).feed length s).2 ++
      (qpwrpMachine length).finish ((qpwrpMachine length).feed length s).1 := rfl
  rw [hrun, unqp_run hclean, unqp_run (unqp_append hwrap (hfin _)), List.append_nil]

end Wrap

/-! ## Through the pump -/

theorem qp_again {marker s : Bytes} (hs : Waiting s) : (qpMachine marker).feed [] s = (s, []) := by
  cases hs with
  | nil => rfl
  | cr h | blank h => simp [feed_cons, qpMachine, machine, qpencode, qploop, h]
  | blankNext h d => simp [feed_cons, qpMachine, machine, qpencode, qploop, h]

/-- The beginnings of what is more than a byte. -/
inductive EscapePart : Bytes → Prop
  | nil : EscapePart []
  | cr : EscapePart [13]
  | escape : EscapePart [61]
  | digit (x : UInt8) : EscapePart [61, x]

theorem escapePart_step (s : Bytes) (c : UInt8) (hs : EscapePart s) :
    EscapePart (unqpMachine.step s c).1 := by
  show EscapePart (qpdecode c s).1
  cases hs with
  | nil =>
    by_cases h61 : c = 61
    · subst h61
      exact .escape
    by_cases h13 : c = 13
    · subst h13
      exact .cr
    simp only [qpdecode, List.nil_append, if_neg h61, if_neg h13]
    split_ifs <;> exact .nil
  | cr =>
    have h : (qpdecode c [13]).1 = [] := by
      show (if c = 10 then (([], [13, c]) : Bytes × Bytes) else ([], [])).1 = []
      split_ifs <;> rfl
    rw [h]
    exact .nil
  | escape => exact .digit c
  | digit x =>
    have h : (qpdecode c [61, x]).1 = [] := by
      simp only [qpdecode, List.cons_append, List.nil_append, if_true]
      split_ifs <;> rfl
    rw [h]
    exact .nil

theorem unqp_again {s : Bytes} (hs : EscapePart s) : unqpMachine.feed [] s = (s, []) := by
  cases hs <;> rfl

theorem qp_realises (marker : Bytes) (hm : Marks marker) :
    Realises (filterCycle (stringFilter (qpMachine marker))) (qpMachine marker)
      (fun C s => C = some s ∧ Waiting s) (· = none) := by
  apply stringFilter_realises
  · exact fun s c hs => ((qp_keepsUp hm).step s c hs).1
  · exact fun s hs => qp_again hs
  · intro s hs hcstr
    have hquoted (c : UInt8) (h : qpclass c ≠ .plain) (t : Bytes) :
        cstring (qppad (c :: t)) ≠ [] := by
      simp [qppad, h, qpquote, cstring]
    cases hs with
    | nil => rfl
    | cr h | blank h => exact (hquoted _ (by simp [h]) _ hcstr).elim
    | blankNext h d => exact (hquoted _ (by simp [h]) _ hcstr).elim

/-- The marker of `encode` for the two modes. -/
def modeMarker (binary : Bool) : Bytes := cstring (if binary then bytes "=0D=0A" else CRLF)

theorem modeMarker_spec (binary : Bool) : Marks (modeMarker binary) ∧ Pieces (modeMarker binary) := by
  have hbinary : modeMarker true = bytes "=0D=0A" := by decide +kernel
  have htext : modeMarker false = CRLF := by decide
  cases binary with
  | false =>
    rw [htext]
    exact ⟨marks_crlf, pieces_crlf⟩
  | true =>
    rw [hbinary]
    exact ⟨marks_binary, pieces_binary⟩

theorem encodeQuotedPrintable_realises (binary : Bool) :
    Realises (encodeQuotedPrintable binary) (qpMachine (modeMarker binary))
      (fun C s => C = some s ∧ Waiting s) (· = none) :=
  qp_realises _ (modeMarker_spec binary).1

theorem decodeQuotedPrintable_realises : Realises decodeQuotedPrintable unqpMachine
    (fun C s => C = some s ∧ EscapePart s) (· = none) := by
  apply stringFilter_realises
  · exact escapePart_step
  · exact fun s hs => unqp_again hs
  · exact fun _ _ _ => rfl

/-- Encoded in either mode, broken into lines, pumped and decoded, the data are what they were, whatever
chunks the source gives them in. -/
theorem quotedPrintable_pump {τ : Type} {src : Source τ} {t : τ} {cs : List Bytes}
    (hsrc : Yields src t cs) (binary : Bool) {fuel : ℕ} (hfuel : cs.length + 3 ≤ fuel) :
    ∃ st dec chunks, pumpAll
        (sourceChain fuel (sourceChain fuel src (encodeQuotedPrintable binary)) wrapQuotedPrintable)
        (sinkChain 3 decodeQuotedPrintable sinkTable) fuel
        (.start (.start t (some [])) 76, some [], []) =
      .ok (⟨true, none⟩, st, dec, chunks) ∧ chunks.flatten = cs.flatten := by
  obtain ⟨hmarks, hpieces⟩ := modeMarker_spec binary
  obtain ⟨ds, hds, hdlen, hdflat⟩ := sourceChain_yields (encodeQuotedPrintable_realises binary) hsrc
    (F := fuel) (by omega) (s := some []) ⟨rfl, .nil⟩
  obtain ⟨es, hes, helen, heflat⟩ := sourceChain_yields wrapQuotedPrintable_realises hds (F := fuel)
    (by omega) (s := 76) rfl
  obtain ⟨st, dec, chunks, hpump, hchunks⟩ := pumpAll_sinkChain hes decodeQuotedPrintable_realises
    sinkTable_collects (F := fuel) (by omega) (s := some []) (p := []) ⟨rfl, .nil⟩ []
  refine ⟨st, dec, chunks, hpump, ?_⟩
  calc chunks.flatten = unqpMachine.run es.flatten := hchunks
    _ = unqpMachine.run ((qpMachine (modeMarker binary)).run cs.flatten) := by
      rw [heflat, hdflat, unqp_qpwrp_run (by decide) (qp_pieces hpieces _)]
    _ = cs.flatten := (qp_keepsUp hmarks).run _

theorem quotedPrintable_pump_sample :
    ∃ st dec chunks, pumpAll
        (sourceChain 4 (sourceChain 4 (sourceString (bytes "a = b \r\n")) (encodeQuotedPrintable false))
          wrapQuotedPrintable)
        (sinkChain 3 decodeQuotedPrintable sinkTable) 4 (.start (.start 0 (some [])) 76, some [], []) =
      .ok (⟨true, none⟩, st, dec, chunks) ∧ chunks.flatten = [bytes "a = b \r\n"].flatten :=
  quotedPrintable_pump (.cons rfl (.nil rfl)) false (by decide)

end LuaTT.Mime
