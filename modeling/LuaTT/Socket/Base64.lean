import LuaTT.Socket.Mime
import Mathlib.Tactic.IntervalCases

/-! Base64 there and back. The decoder gives back every byte, however the data and the text are cut into
chunks, and does not mind the line breaks that have been put into the text. -/
namespace LuaTT.Mime
open Lua Ltn12 Streaming Transducer
set_option autoImplicit false

/-! ## The alphabet -/

theorem b64char_spec : ∀ i < 64, b64unbase (b64char i) = i.toUInt8 ∧ b64char i ≠ 61 := by
  decide +kernel

theorem b64unbase_char {i : ℕ} (h : i < 64) : (b64unbase (b64char i)).toNat = i := by
  rw [(b64char_spec i h).1]
  simp
  omega

theorem b64char_ne {i : ℕ} (h : i < 64) : b64char i ≠ 61 := (b64char_spec i h).2

theorem b64unbase_break : 64 < b64unbase 13 ∧ 64 < b64unbase 10 := by decide +kernel

/-! ## One atom -/

theorem unb64_skip {c : UInt8} (h : 64 < b64unbase c) (s : Bytes) : b64decode c s = (s, []) := if_pos h

theorem unb64_atom {a b c d : UInt8} (ha : ¬ 64 < b64unbase a) (hb : ¬ 64 < b64unbase b)
    (hc : ¬ 64 < b64unbase c) (hd : ¬ 64 < b64unbase d) (value : ℕ)
    (hvalue : (((b64unbase a).toNat * 64 + (b64unbase b).toNat) * 64 + (b64unbase c).toNat) * 64 +
      (b64unbase d).toNat = value) :
    unb64Machine.feed [] [a, b, c, d] =
      ([], [(value / 65536).toUInt8, (value / 256).toUInt8, value.toUInt8].take
        (if c = 61 then 1 else if d = 61 then 2 else 3)) := by
  subst hvalue
  simp [feed_cons, unb64Machine, machine, b64decode, ha, hb, hc, hd]

theorem not_skipped {i : ℕ} (h : i < 64) : ¬ 64 < b64unbase (b64char i) := by
  rw [UInt8.lt_iff_toNat_lt, b64unbase_char h]
  show ¬ 64 < i
  omega

theorem toUInt8_eq {n : ℕ} {x : UInt8} (h : n % 256 = x.toNat) : n.toUInt8 = x := by
  apply UInt8.toNat_inj.mp
  simpa using h

/-- A full atom gives its three bytes back. -/
theorem unb64_b64encode (x y z : UInt8) :
    unb64Machine.feed [] (b64encode z [x, y]).2 = ([], [x, y, z]) := by
  have hx := x.toNat_lt
  have hy := y.toNat_lt
  have hz := z.toNat_lt
  have h3 : ((x.toNat * 256 + y.toNat) * 256 + z.toNat) / 64 / 64 / 64 < 64 := by omega
  have h2 : ((x.toNat * 256 + y.toNat) * 256 + z.toNat) / 64 / 64 % 64 < 64 := Nat.mod_lt _ (by decide)
  have h1 : ((x.toNat * 256 + y.toNat) * 256 + z.toNat) / 64 % 64 < 64 := Nat.mod_lt _ (by decide)
  have h0 : ((x.toNat * 256 + y.toNat) * 256 + z.toNat) % 64 < 64 := Nat.mod_lt _ (by decide)
  show unb64Machine.feed [] [b64char _, b64char _, b64char _, b64char _] = _
  rw [unb64_atom (not_skipped h3) (not_skipped h2) (not_skipped h1) (not_skipped h0)
    ((x.toNat * 256 + y.toNat) * 256 + z.toNat), if_neg (b64char_ne h1), if_neg (b64char_ne h0)]
  · rw [toUInt8_eq (x := x) (by omega), toUInt8_eq (x := y) (by omega), toUInt8_eq (x := z) (by omega)]
    rfl
  · rw [b64unbase_char h3, b64unbase_char h2, b64unbase_char h1, b64unbase_char h0]
    omega

/-- So do one or two bytes with padding. -/
theorem unb64_b64pad_one (x : UInt8) : unb64Machine.feed [] (b64pad [x]) = ([], [x]) := by
  have hx := x.toNat_lt
  have h1 : x.toNat * 16 / 64 < 64 := by omega
  have h0 : x.toNat * 16 % 64 < 64 := Nat.mod_lt _ (by decide)
  have hpad : ¬ 64 < b64unbase 61 := by decide
  have hzero : b64unbase 61 = 0 := rfl
  show unb64Machine.feed [] [b64char _, b64char _, 61, 61] = _
  rw [unb64_atom (not_skipped h1) (not_skipped h0) hpad hpad (x.toNat * 65536), if_pos rfl]
  · rw [toUInt8_eq (x := x) (by omega)]
    rfl
  · rw [b64unbase_char h1, b64unbase_char h0, hzero, UInt8.toNat_zero]
    omega

theorem unb64_b64pad_two (x y : UInt8) : unb64Machine.feed [] (b64pad [x, y]) = ([], [x, y]) := by
  have hx := x.toNat_lt
  have hy := y.toNat_lt
  have h2 : (x.toNat * 256 + y.toNat) * 4 / 64 / 64 < 64 := by omega
  have h1 : (x.toNat * 256 + y.toNat) * 4 / 64 % 64 < 64 := Nat.mod_lt _ (by decide)
  have h0 : (x.toNat * 256 + y.toNat) * 4 % 64 < 64 := Nat.mod_lt _ (by decide)
  have hpad : ¬ 64 < b64unbase 61 := by decide
  have hzero : b64unbase 61 = 0 := rfl
  show unb64Machine.feed [] [b64char _, b64char _, b64char _, 61] = _
  rw [unb64_atom (not_skipped h2) (not_skipped h1) (not_skipped h0) hpad
    ((x.toNat * 256 + y.toNat) * 256), if_neg (b64char_ne h0), if_pos rfl]
  · rw [toUInt8_eq (x := x) (by omega), toUInt8_eq (x := y) (by omega)]
    rfl
  · rw [b64unbase_char h2, b64unbase_char h1, b64unbase_char h0, hzero, UInt8.toNat_zero]
    omega

/-! ## Whole texts -/

/-- Fewer than three bytes wait for the next ones. -/
theorem b64_keepsUp : KeepsUp b64Machine unb64Machine (fun p => p.length < 3) id where
  init := by decide
  held_init := rfl
  step p c hp := by
    match p, hp with
    | [], _ => exact ⟨by simp [b64Machine, machine, b64encode], [], rfl, rfl⟩
    | [x], _ => exact ⟨by simp [b64Machine, machine, b64encode], [], rfl, rfl⟩
    | [x, y], _ => exact ⟨by simp [b64Machine, machine, b64encode], [x, y, c], unb64_b64encode x y c, rfl⟩
  finish p hp := by
    have hrun (s : Bytes) (out : Bytes) (h : unb64Machine.feed [] s = ([], out)) :
        unb64Machine.run s = out := by
      show (unb64Machine.feed [] s).2 ++ [] = out
      rw [h, List.append_nil]
    match p, hp with
    | [], _ => rfl
    | [x], _ => exact hrun _ _ (unb64_b64pad_one x)
    | [x, y], _ => exact hrun _ _ (unb64_b64pad_two x y)

/-- The decoder passes over the line breaks that `wrp` puts in and takes out. -/
theorem unb64_wrp (length left : ℤ) (s text : Bytes) :
    unb64Machine.feed s ((wrpMachine length).feed left text).2 = unb64Machine.feed s text := by
  have hcr (s : Bytes) : unb64Machine.step s 13 = (s, []) := unb64_skip b64unbase_break.1 s
  have hlf (s : Bytes) : unb64Machine.step s 10 = (s, []) := unb64_skip b64unbase_break.2 s
  induction text generalizing left s with
  | nil => rfl
  | cons c text ih =>
    rw [feed_cons, feed_append, ih]
    by_cases h13 : c = 13
    · simp [wrpMachine, h13, feed_cons, hcr]
    by_cases h10 : c = 10
    · simp [wrpMachine, h10, feed_cons, hcr, hlf, CRLF]
    by_cases hleft : left ≤ 0
    · simp [wrpMachine, h13, h10, hleft, feed_cons, hcr, hlf, CRLF]
    · simp [wrpMachine, h13, h10, hleft, feed_cons]

theorem unb64_wrp_run (length : ℤ) (text : Bytes) :
    unb64Machine.run ((wrpMachine length).run text) = unb64Machine.run text := by
  have hcr (s : Bytes) : unb64Machine.step s 13 = (s, []) := unb64_skip b64unbase_break.1 s
  have hlf (s : Bytes) : unb64Machine.step s 10 = (s, []) := unb64_skip b64unbase_break.2 s
  have hfin (s : Bytes) (left : ℤ) :
      unb64Machine.feed s ((wrpMachine length).finish left) = (s, []) := by
    show unb64Machine.feed s (if left < length then CRLF else []) = (s, [])
    split_ifs
    · simp [feed_cons, hcr, hlf, CRLF]
    · rfl
  rw [run_eq unb64Machine, run_eq (wrpMachine length), feed_append, unb64_wrp, hfin, List.append_nil]
  rfl

/-! ## Through the pump -/

theorem b64_again {s : Bytes} (hs : s.length < 3) : b64Machine.feed [] s = (s, []) := by
  match s, hs with
  | [], _ => rfl
  | [x], _ => rfl
  | [x, y], _ => rfl

/-- What waits at the decoder is part of an atom. -/
def AtomPart (s : Bytes) : Prop := s.length < 4 ∧ ∀ c ∈ s, ¬ 64 < b64unbase c

theorem unb64_again {s : Bytes} (hs : AtomPart s) : unb64Machine.feed [] s = (s, []) := by
  obtain ⟨hlen, hvalid⟩ := hs
  match s, hlen with
  | [], _ => rfl
  | [a], _ => simp [feed_cons, unb64Machine, machine, b64decode, hvalid a]
  | [a, b], _ => simp [feed_cons, unb64Machine, machine, b64decode, hvalid a, hvalid b]
  | [a, b, c], _ => simp [feed_cons, unb64Machine, machine, b64decode, hvalid a, hvalid b, hvalid c]

theorem atomPart_step (s : Bytes) (c : UInt8) (hs : AtomPart s) : AtomPart (unb64Machine.step s c).1 := by
  obtain ⟨hlen, hvalid⟩ := hs
  by_cases hc : 64 < b64unbase c
  · show AtomPart (b64decode c s).1
    rw [unb64_skip hc]
    exact ⟨hlen, hvalid⟩
  · have hvalid' : ∀ d ∈ s ++ [c], ¬ 64 < b64unbase d := by
      intro d hd
      obtain hd | hd := List.mem_append.mp hd
      · exact hvalid d hd
      · rw [List.mem_singleton.mp hd]
        exact hc
    show AtomPart (b64decode c s).1
    match s, hlen with
    | [], _ => simpa [b64decode, hc, AtomPart] using hvalid'
    | [a], _ => simpa [b64decode, hc, AtomPart] using hvalid'
    | [a, b], _ => simpa [b64decode, hc, AtomPart] using hvalid'
    | [a, b, d], _ => simp [b64decode, hc, AtomPart]

theorem encodeBase64_realises : Realises encodeBase64 b64Machine
    (fun C s => C = some s ∧ s.length < 3) (· = none) := by
  apply stringFilter_realises
  · exact fun s c hs => (b64_keepsUp.step s c hs).1
  · exact fun s hs => b64_again hs
  · -- the padded atom begins with a letter of the alphabet
    have hne : ∀ i < 64, b64char i ≠ 0 := by decide +kernel
    intro s hs hcstr
    match s, hs with
    | [], _ => rfl
    | [x], _ =>
      have hlt : x.toNat * 16 / 64 < 64 := by have := x.toNat_lt; omega
      simp [b64Machine, machine, b64pad, cstring, hne _ hlt] at hcstr
    | [x, y], _ =>
      have hlt : (x.toNat * 256 + y.toNat) * 4 / 64 / 64 < 64 := by
        have := x.toNat_lt
        have := y.toNat_lt
        omega
      simp [b64Machine, machine, b64pad, cstring, hne _ hlt] at hcstr

theorem decodeBase64_realises : Realises decodeBase64 unb64Machine
    (fun C s => C = some s ∧ AtomPart s) (· = none) := by
  apply stringFilter_realises
  · exact atomPart_step
  · exact fun s hs => unb64_again hs
  · exact fun _ _ _ => rfl

/-- Encoded, broken into lines, pumped and decoded, the data are what they were, whatever chunks the source
gives them in. -/
theorem base64_pump {τ : Type} {src : Source τ} {t : τ} {cs : List Bytes} (hsrc : Yields src t cs)
    (length : Option ℤ) {fuel : ℕ} (hfuel : cs.length + 3 ≤ fuel) :
    ∃ st dec chunks, pumpAll (sourceChain fuel (sourceChain fuel src encodeBase64) (wrapText length))
        (sinkChain 3 decodeBase64 sinkTable) fuel
        (.start (.start t (some [])) (length.getD 76), some [], []) =
      .ok (⟨true, none⟩, st, dec, chunks) ∧ chunks.flatten = cs.flatten := by
  obtain ⟨ds, hds, hdlen, hdflat⟩ := sourceChain_yields encodeBase64_realises hsrc (F := fuel) (by omega)
    (s := some []) ⟨rfl, by decide⟩
  obtain ⟨es, hes, helen, heflat⟩ := sourceChain_yields (wrapText_realises length) hds (F := fuel)
    (by omega) (s := length.getD 76) rfl
  obtain ⟨st, dec, chunks, hpump, hchunks⟩ := pumpAll_sinkChain hes decodeBase64_realises
    sinkTable_collects (F := fuel) (by omega) (s := some []) (p := []) ⟨rfl, by decide, by simp⟩ []
  refine ⟨st, dec, chunks, hpump, ?_⟩
  calc chunks.flatten = unb64Machine.run es.flatten := hchunks
    _ = unb64Machine.run (b64Machine.run cs.flatten) := by rw [heflat, unb64_wrp_run, hdflat]
    _ = cs.flatten := b64_keepsUp.run _

theorem base64_pump_sample :
    ∃ st dec chunks, pumpAll
        (sourceChain 4 (sourceChain 4 (sourceString (bytes "Renegade")) encodeBase64) (wrapText (some 4)))
        (sinkChain 3 decodeBase64 sinkTable) 4 (.start (.start 0 (some [])) 4, some [], []) =
      .ok (⟨true, none⟩, st, dec, chunks) ∧ chunks.flatten = [bytes "Renegade"].flatten :=
  base64_pump (.cons rfl (.nil rfl)) (some 4) (by decide)

end LuaTT.Mime
