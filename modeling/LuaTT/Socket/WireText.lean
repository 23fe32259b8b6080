import LuaTT.Socket.QuotedPrintable

/-! What the encoders put on the wire: whole lines, none longer than asked for, of bytes that every mail
system passes on. -/
namespace LuaTT.Mime
open Lua Ltn12 Streaming Transducer
set_option autoImplicit false

/-! ## Lines -/

def Unbroken (l : Bytes) : Prop := ∀ c ∈ l, c ≠ 13 ∧ c ≠ 10

instance (l : Bytes) : Decidable (Unbroken l) := inferInstanceAs (Decidable (∀ c ∈ l, c ≠ 13 ∧ c ≠ 10))

/-- Lines of at most `n` bytes with `P`, each ended by CRLF. -/
def WholeLines (P : Bytes → Prop) (n : ℕ) (s : Bytes) : Prop :=
  ∃ lines : List Bytes, s = lines.flatMap (· ++ CRLF) ∧ ∀ l ∈ lines, l.length ≤ n ∧ P l

/-- Whole lines and a part of one with `Q`, in which `left` more bytes fit. -/
structure Lines (P Q : Bytes → Prop) (n : ℕ) (left : ℤ) (s : Bytes) : Prop where
  split : ∃ whole part : Bytes, s = whole ++ part ∧ WholeLines P n whole ∧ Q part ∧
    (part.length : ℤ) + left = n
  room : 0 ≤ left

section
variable {P Q : Bytes → Prop} {n : ℕ} {left : ℤ} {s : Bytes}

theorem WholeLines.nil : WholeLines P n [] := ⟨[], rfl, by simp⟩

theorem WholeLines.start (h : WholeLines P n s) (hnil : Q []) : Lines P Q n n s :=
  ⟨⟨s, [], by simp, h, hnil, by simp⟩, by omega⟩

/-- The line ends, with `t` before the break. -/
theorem Lines.close (h : Lines P Q n left s) {t : Bytes} (hclose : ∀ part, Q part → P (part ++ t))
    (ht : (t.length : ℤ) ≤ left) : WholeLines P n (s ++ (t ++ CRLF)) := by
  obtain ⟨whole, part, rfl, ⟨lines, rfl, hlines⟩, hpart, hlen⟩ := h.split
  refine ⟨lines ++ [part ++ t], by simp [List.flatMap_append], ?_⟩
  intro l hl
  obtain hl | hl := List.mem_append.mp hl
  · exact hlines l hl
  · rw [List.mem_singleton.mp hl, List.length_append]
    exact ⟨by omega, hclose part hpart⟩

/-- The line goes on with `t`. -/
theorem Lines.extend (h : Lines P Q n left s) {t : Bytes} (hext : ∀ part, Q part → Q (part ++ t))
    (ht : (t.length : ℤ) ≤ left) : Lines P Q n (left - t.length) (s ++ t) := by
  obtain ⟨whole, part, rfl, hwhole, hpart, hlen⟩ := h.split
  refine ⟨⟨whole, part ++ t, by simp, hwhole, hext part hpart, ?_⟩, by omega⟩
  rw [List.length_append]
  omega

/-- A line that is at its beginning needs no break. -/
theorem Lines.whole (h : Lines P Q n left s) (hfull : ¬ left < n) : WholeLines P n s := by
  obtain ⟨whole, part, rfl, hwhole, hpart, hlen⟩ := h.split
  obtain rfl : part = [] := List.length_eq_zero_iff.mp (by omega)
  rwa [List.append_nil]

end

/-! ## `wrp` -/

theorem Unbroken.append {l t : Bytes} (hl : Unbroken l) (ht : Unbroken t) : Unbroken (l ++ t) :=
  List.forall_mem_append.mpr ⟨hl, ht⟩

section Wrp
variable {n : ℕ} {left : ℤ} {s : Bytes}

theorem wrp_crlf (h : Lines Unbroken Unbroken n left s) : Lines Unbroken Unbroken n n (s ++ CRLF) :=
  (h.close (t := []) (fun part hpart => by simpa using hpart) h.room).start (by simp [Unbroken])

theorem wrp_byte (h : Lines Unbroken Unbroken n left s) (hleft : 1 ≤ left) {c : UInt8}
    (hc : c ≠ 13 ∧ c ≠ 10) : Lines Unbroken Unbroken n (left - 1) (s ++ [c]) :=
  h.extend (t := [c]) (fun _ hpart => hpart.append (by simpa [Unbroken] using hc)) hleft

theorem wrp_step (hn : 1 ≤ n) (h : Lines Unbroken Unbroken n left s) (c : UInt8) :
    Lines Unbroken Unbroken n ((wrpMachine n).step left c).1 (s ++ ((wrpMachine n).step left c).2) := by
  simp only [wrpMachine]
  split_ifs with h13 h10 hle
  · simpa using h
  · exact wrp_crlf h
  · rw [← List.append_assoc]
    exact wrp_byte (wrp_crlf h) (by omega) ⟨h13, h10⟩
  · exact wrp_byte h (by omega) ⟨h13, h10⟩

theorem wrp_feed (hn : 1 ≤ n) (h : Lines Unbroken Unbroken n left s) (t : Bytes) :
    Lines Unbroken Unbroken n ((wrpMachine n).feed left t).1 (s ++ ((wrpMachine n).feed left t).2) := by
  induction t generalizing left s with
  | nil => simpa using h
  | cons c t ih =>
    rw [feed_cons, ← List.append_assoc]
    exact ih (wrp_step hn h c)

theorem wrp_wholeLines (hn : 1 ≤ n) (t : Bytes) : WholeLines Unbroken n ((wrpMachine n).run t) := by
  have h := wrp_feed hn (WholeLines.nil.start (by simp [Unbroken])) t
  rw [List.nil_append] at h
  have hrun : (wrpMachine n).run t = ((wrpMachine n).feed n t).2 ++
      if ((wrpMachine n).feed n t).1 < n then CRLF else [] := rfl
  rw [hrun]
  split_ifs with hlt
  · exact h.close (t := []) (fun part hpart => by simpa using hpart) h.room
  · rw [List.append_nil]
    exact h.whole hlt

end Wrp

/-! ## `qpwrp` -/

/-- Bytes that stand for themselves, and whole escapes. -/
inductive Escaped : Bytes → Prop
  | nil : Escaped []
  | plain {l : Bytes} (hl : Escaped l) {c : UInt8} (hc : qpclass c = .plain ∨ qpclass c = .ifLast) :
      Escaped (l ++ [c])
  | quote {l : Bytes} (hl : Escaped l) (c : UInt8) : Escaped (l ++ qpquote c)

/-- A line without breaks in which every escape is whole; behind them there may be the `=` of a soft break. -/
def EscapedLine (l : Bytes) : Prop := Unbroken l ∧ (Escaped l ∨ ∃ t, Escaped t ∧ l = t ++ [61])

theorem Escaped.unbroken {l : Bytes} (h : Escaped l) : Unbroken l := by
  induction h with
  | nil => simp [Unbroken]
  | @plain l _ c hc ih =>
    have hne := plain_ne c hc
    exact ih.append (by simpa [Unbroken] using ⟨hne.1, hne.2.1⟩)
  | quote _ c ih =>
    have h1 := digit_ne (c.toNat / 16) (by have := c.toNat_lt; omega)
    have h2 := digit_ne (c.toNat % 16) (Nat.mod_lt _ (by decide))
    refine ih.append ?_
    simp only [Unbroken, qpquote, List.forall_mem_cons]
    exact ⟨by decide, ⟨h1.1, h1.2.1⟩, ⟨h2.1, h2.2.1⟩, by simp⟩

theorem Escaped.line {l : Bytes} (h : Escaped l) : EscapedLine (l ++ []) := by
  rw [List.append_nil]
  exact ⟨h.unbroken, .inl h⟩

theorem Escaped.soft {l : Bytes} (h : Escaped l) : EscapedLine (l ++ [61]) :=
  ⟨h.unbroken.append (by simp [Unbroken]), .inr ⟨l, h, rfl⟩⟩

section Qpwrp
variable {n : ℕ} {left : ℤ} {s : Bytes}

theorem qpwrp_hard (h : Lines EscapedLine Escaped n left s) : Lines EscapedLine Escaped n n (s ++ CRLF) :=
  (h.close (fun _ => Escaped.line) h.room).start .nil

theorem qpwrp_break (h : Lines EscapedLine Escaped n left s) (hleft : 1 ≤ left) :
    Lines EscapedLine Escaped n n (s ++ EQCRLF) :=
  (h.close (fun _ => Escaped.soft) hleft).start .nil

theorem qpwrp_piece (hn : 4 ≤ n) (h : Lines EscapedLine Escaped n left s) (hleft : 1 ≤ left) {t : Bytes}
    (ht : Piece t) :
    Lines EscapedLine Escaped n ((qpwrpMachine n).feed left t).1 (s ++ ((qpwrpMachine n).feed left t).2) := by
  have hlength : (4 : ℤ) ≤ n := by omega
  cases ht with
  | @plain c hc =>
    have hext : ∀ part, Escaped part → Escaped (part ++ [c]) := fun _ hpart => hpart.plain hc
    rw [feed_singleton, qpwrp_plain (plain_ne c hc)]
    split_ifs with hle
    · rw [← List.append_assoc]
      exact (qpwrp_break h hleft).extend hext (by show (1 : ℤ) ≤ n; omega)
    · exact h.extend hext hleft
  | quote c =>
    have hext : ∀ part, Escaped part → Escaped (part ++ qpquote c) := fun _ hpart => hpart.quote c
    rw [qpwrp_quote hlength]
    split_ifs with hle
    · rw [← List.append_assoc]
      exact (qpwrp_break h hleft).extend hext (by show (3 : ℤ) ≤ n; omega)
    · exact h.extend hext (by show (3 : ℤ) ≤ left; omega)
  | hard => exact qpwrp_hard h
  | soft =>
    rw [qpwrp_soft]
    split_ifs
    · rw [← List.append_assoc]
      exact qpwrp_break (qpwrp_break h hleft) (by omega)
    · exact qpwrp_break h hleft

theorem qpwrp_feed (hn : 4 ≤ n) (h : Lines EscapedLine Escaped n left s) (hleft : 1 ≤ left ∧ left ≤ n)
    {t : Bytes} (ht : Pieces t) :
    Lines EscapedLine Escaped n ((qpwrpMachine n).feed left t).1 (s ++ ((qpwrpMachine n).feed left t).2) ∧
      1 ≤ ((qpwrpMachine n).feed left t).1 := by
  induction ht generalizing left s with
  | nil => exact ⟨by simpa using h, hleft.1⟩
  | cons hs _ ih =>
    have hpiece := qpwrp_piece hn h hleft.1 hs
    have hlength : (4 : ℤ) ≤ n := by omega
    have hbounds := (unqp_qpwrp_piece hlength hleft hs).2
    rw [feed_append, ← List.append_assoc]
    exact ih hpiece hbounds

theorem qpwrp_wholeLines (hn : 4 ≤ n) {t : Bytes} (ht : Pieces t) :
    WholeLines EscapedLine n ((qpwrpMachine n).run t) := by
  obtain ⟨h, hleft⟩ := qpwrp_feed hn (WholeLines.nil.start .nil) (by omega) ht
  rw [List.nil_append] at h
  have hrun : (qpwrpMachine n).run t = ((qpwrpMachine n).feed n t).2 ++
      if ((qpwrpMachine n).feed n t).1 < n then EQCRLF else [] := rfl
  rw [hrun]
  split_ifs with hlt
  · exact h.close (t := [61]) (fun _ => Escaped.soft) hleft
  · rw [List.append_nil]
    exact h.whole hlt

end Qpwrp

/-! ## Bytes -/

section
variable {p : UInt8 → Prop} {t : Bytes}

/-- Only line breaks are added. -/
theorem wrp_bytes (length : ℤ) (hcrlf : ∀ c ∈ CRLF, p c) (ht : ∀ c ∈ t, p c) :
    ∀ c ∈ (wrpMachine length).run t, p c := by
  have hstep (left : ℤ) (c : UInt8) (hc : p c) : ∀ d ∈ ((wrpMachine length).step left c).2, p d := by
    simp only [wrpMachine]
    split_ifs
    · simp
    · exact hcrlf
    · exact List.forall_mem_append.mpr ⟨hcrlf, by simpa using hc⟩
    · simpa using hc
  rw [run_eq]
  refine List.forall_mem_append.mpr ⟨feed_written hstep _ ht, ?_⟩
  simp only [wrpMachine]
  split_ifs
  · exact hcrlf
  · simp

theorem qpwrp_bytes (length : ℤ) (hsoft : ∀ c ∈ EQCRLF, p c) (ht : ∀ c ∈ t, p c) :
    ∀ c ∈ (qpwrpMachine length).run t, p c := by
  have hcrlf : ∀ c ∈ CRLF, p c := fun c hc => hsoft c (List.mem_cons_of_mem 61 hc)
  have hstep (left : ℤ) (c : UInt8) (hc : p c) : ∀ d ∈ ((qpwrpMachine length).step left c).2, p d := by
    have hbreak : ∀ d ∈ EQCRLF ++ [c], p d := List.forall_mem_append.mpr ⟨hsoft, by simpa using hc⟩
    simp only [qpwrpMachine]
    split_ifs
    · simp
    · exact hcrlf
    · exact hbreak
    · simpa using hc
    · exact hbreak
    · simpa using hc
  rw [run_eq]
  refine List.forall_mem_append.mpr ⟨feed_written hstep _ ht, ?_⟩
  simp only [qpwrpMachine]
  split_ifs
  · exact hsoft
  · simp

end

/-- The bytes of a base64 text. -/
def Base64Byte (c : UInt8) : Prop := c ∈ b64base ∨ c = 61 ∨ c = 13 ∨ c = 10

theorem b64char_byte {i : ℕ} (h : i < 64) : Base64Byte (b64char i) := by
  left
  revert i
  decide +kernel

theorem b64_digit (i : ℕ) : Base64Byte (b64char (i % 64)) := b64char_byte (Nat.mod_lt i (by decide))

theorem b64encode_bytes (s : Bytes) (c : UInt8) : ∀ d ∈ (b64encode c s).2, Base64Byte d := by
  unfold b64encode
  split
  case h_1 x y z _ =>
    have hx := x.toNat_lt
    have hy := y.toNat_lt
    have hz := z.toNat_lt
    have hfirst : Base64Byte (b64char (((x.toNat * 256 + y.toNat) * 256 + z.toNat) / 64 / 64 / 64)) :=
      b64char_byte (by omega)
    simp only [List.forall_mem_cons]
    exact ⟨hfirst, b64_digit _, b64_digit _, b64_digit _, by simp⟩
  case h_2 => simp

theorem b64pad_bytes (s : Bytes) : ∀ d ∈ b64pad s, Base64Byte d := by
  have hequals : Base64Byte 61 := .inr (.inl rfl)
  unfold b64pad
  split
  case h_1 x =>
    have hx := x.toNat_lt
    have hfirst : Base64Byte (b64char (x.toNat * 16 / 64)) := b64char_byte (by omega)
    simp only [List.forall_mem_cons]
    exact ⟨hfirst, b64_digit _, hequals, hequals, by simp⟩
  case h_2 x y =>
    have hx := x.toNat_lt
    have hy := y.toNat_lt
    have hfirst : Base64Byte (b64char ((x.toNat * 256 + y.toNat) * 4 / 64 / 64)) :=
      b64char_byte (by omega)
    simp only [List.forall_mem_cons]
    exact ⟨hfirst, b64_digit _, b64_digit _, hequals, by simp⟩
  case h_3 => simp

theorem b64_bytes (t : Bytes) : ∀ c ∈ b64Machine.run t, Base64Byte c := by
  have hany : ∀ c ∈ t, True := fun _ _ => trivial
  have hfeed := feed_written (T := b64Machine) (Q := Base64Byte) (fun s c _ => b64encode_bytes s c) [] hany
  rw [run_eq]
  exact List.forall_mem_append.mpr ⟨hfeed, b64pad_bytes _⟩

/-- Printable bytes, the tab and the bytes of line breaks. -/
def MailByte (c : UInt8) : Prop := c = 9 ∨ c = 10 ∨ c = 13 ∨ 32 ≤ c ∧ c < 127

instance : DecidablePred MailByte := fun c =>
  inferInstanceAs (Decidable (c = 9 ∨ c = 10 ∨ c = 13 ∨ 32 ≤ c ∧ c < 127))

theorem mailByte_plain (c : UInt8) (h : qpclass c = .plain ∨ qpclass c = .ifLast) : MailByte c := by
  revert c
  apply forall_uint8
  decide +kernel

theorem mailByte_quote (c : UInt8) : ∀ d ∈ qpquote c, MailByte d := by
  have hdigit : ∀ i < 16, MailByte (qpbase.getD i 0) := by decide +kernel
  have hlt := c.toNat_lt
  simp only [qpquote, List.forall_mem_cons]
  exact ⟨by decide, hdigit _ (by omega), hdigit _ (by omega), by simp⟩

theorem Pieces.bytes {t : Bytes} (ht : Pieces t) : ∀ c ∈ t, MailByte c := by
  induction ht with
  | nil => simp
  | cons hs _ ih =>
    refine List.forall_mem_append.mpr ⟨?_, ih⟩
    cases hs with
    | plain h => simpa using mailByte_plain _ h
    | quote c => exact mailByte_quote c
    | hard => simp [CRLF, MailByte]
    | soft => simp [EQCRLF, MailByte]

/-! ## Through the sources -/

/-- Base64 leaves as whole lines of the asked length, if it is one that `(int)` keeps, in letters, digits, `+`,
`/` and `=`. -/
theorem base64_wire {τ : Type} {src : Source τ} {t : τ} {cs : List Bytes} (hsrc : Yields src t cs)
    {n : ℕ} (hn : 1 ≤ n ∧ n < 2 ^ 31) {fuel : ℕ} (hfuel : cs.length + 3 ≤ fuel) :
    ∃ es, Yields (sourceChain fuel (sourceChain fuel src encodeBase64) (wrapText (some n)))
        (.start (.start t (some [])) n) es ∧
      WholeLines Unbroken n es.flatten ∧ ∀ c ∈ es.flatten, Base64Byte c := by
  obtain ⟨ds, hds, hdlen, hdflat⟩ := sourceChain_yields encodeBase64_realises hsrc (F := fuel) (by omega)
    (s := some []) ⟨rfl, by decide⟩
  obtain ⟨es, hes, -, heflat⟩ := sourceChain_yields (wrapText_realises (some n)) hds (F := fuel)
    (by omega) (s := n) rfl
  have hbytes : ∀ c ∈ (wrpMachine n).run (b64Machine.run cs.flatten), Base64Byte c :=
    wrp_bytes n (by simp [CRLF, Base64Byte]) (b64_bytes _)
  refine ⟨es, hes, ?_, ?_⟩
  · rw [heflat]
    exact wrp_wholeLines hn.1 _
  · rw [heflat, hdflat]
    exact hbytes

theorem base64_wire_sample :
    ∃ es, Yields (sourceChain 4 (sourceChain 4 (sourceString (bytes "Renegade")) encodeBase64)
        (wrapText (some (5 : ℕ)))) (.start (.start 0 (some [])) (5 : ℕ)) es ∧
      WholeLines Unbroken 5 es.flatten ∧ ∀ c ∈ es.flatten, Base64Byte c :=
  have h : Yields (sourceString (bytes "Renegade")) 0 [bytes "Renegade"] := .cons rfl (.nil rfl)
  base64_wire h (by decide) (by decide)

/-- Quoted-printable leaves as whole lines of at most 76 bytes of seven-bit text, with no break inside an
escape, in both modes, whatever bytes the data have. -/
theorem quotedPrintable_wire {τ : Type} {src : Source τ} {t : τ} {cs : List Bytes}
    (hsrc : Yields src t cs) (binary : Bool) {fuel : ℕ} (hfuel : cs.length + 3 ≤ fuel) :
    ∃ es, Yields (sourceChain fuel (sourceChain fuel src (encodeQuotedPrintable binary))
        wrapQuotedPrintable) (.start (.start t (some [])) 76) es ∧
      WholeLines EscapedLine 76 es.flatten ∧ ∀ c ∈ es.flatten, MailByte c := by
  obtain ⟨hmarks, hpieces⟩ := modeMarker_spec binary
  obtain ⟨ds, hds, hdlen, hdflat⟩ := sourceChain_yields (encodeQuotedPrintable_realises binary) hsrc
    (F := fuel) (by omega) (s := some []) ⟨rfl, .nil⟩
  obtain ⟨es, hes, -, heflat⟩ := sourceChain_yields wrapQuotedPrintable_realises hds (F := fuel)
    (by omega) (s := 76) rfl
  have htext : Pieces ((qpMachine (modeMarker binary)).run cs.flatten) := qp_pieces hpieces _
  refine ⟨es, hes, ?_, ?_⟩
  · rw [heflat, hdflat]
    exact qpwrp_wholeLines (by decide) htext
  · rw [heflat, hdflat]
    exact qpwrp_bytes 76 (by simp [EQCRLF, MailByte]) htext.bytes

theorem quotedPrintable_wire_sample :
    ∃ es, Yields (sourceChain 4 (sourceChain 4 (sourceString [0, 255, 32, 13, 10])
        (encodeQuotedPrintable true)) wrapQuotedPrintable) (.start (.start 0 (some [])) 76) es ∧
      WholeLines EscapedLine 76 es.flatten ∧ ∀ c ∈ es.flatten, MailByte c :=
  have h : Yields (sourceString [0, 255, 32, 13, 10]) 0 [[0, 255, 32, 13, 10]] := .cons rfl (.nil rfl)
  quotedPrintable_wire h true (by decide)

end LuaTT.Mime
