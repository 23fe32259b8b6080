import LuaTT.Lua.IntegerText
import LuaTT.Socket.Http

/-! Bodies from one end to the other. In the chunked form a body ends at its first empty chunk; one that is
cut off is noticed, one whose source has failed is not. -/
namespace LuaTT.Http
open Lua Buffer Ltn12
set_option autoImplicit false

/-! ## Chunk sizes -/

def xdigit (d : ℕ) : UInt8 := (if d < 10 then 48 + d else 55 + d).toUInt8

theorem xdigit_spec : ∀ d < 16, ljCharIsxdigit (xdigit d) = true ∧ digitValue (xdigit d) = d := by
  decide

theorem xdigit_plain : ∀ d < 16, casecmp (xdigit d) 120 = false ∧ ljCharIsspace (xdigit d) = false ∧
    (xdigit d ≠ 43 ∧ xdigit d ≠ 45) ∧ xdigit d ≠ 0 ∧ xdigit d ≠ 59 ∧ inLine (xdigit d) = true := by
  decide

theorem formatX_of_lt : ∀ n < 16, formatX n = [xdigit n] := by
  decide

theorem formatX_of_le {n : ℕ} (hn : 16 ≤ n) : formatX n = formatX (n / 16) ++ [xdigit (n % 16)] := by
  have hlt : n % 16 < 16 := Nat.mod_lt n (by decide)
  rw [← formatX_of_lt _ hlt, formatX, Nat.toDigits_of_base_le (by decide) hn, List.map_append, formatX, formatX,
    Nat.toDigits_of_lt_base hlt]

theorem formatX_mem {n : ℕ} {c : UInt8} (hc : c ∈ formatX n) : ∃ d < 16, c = xdigit d := by
  induction n using digits_induction (b := 16) (by decide) with
  | hlt n hn =>
    rw [formatX_of_lt n hn, List.mem_singleton] at hc
    exact ⟨n, hn, hc⟩
  | hle n hn ih =>
    rw [formatX_of_le hn, List.mem_append, List.mem_singleton] at hc
    obtain hc | hc := hc
    · exact ih hc
    · exact ⟨_, Nat.mod_lt n (by decide), hc⟩

theorem hexValue_formatX (n : ℕ) : hexValue (formatX n) = n := by
  induction n using digits_induction (b := 16) (by decide) with
  | hlt n hn =>
    rw [formatX_of_lt n hn]
    show 0 * 16 + digitValue (xdigit n) = n
    rw [(xdigit_spec n hn).2]
    omega
  | hle n hn ih =>
    rw [formatX_of_le hn, hexValue, List.foldl_append]
    show hexValue (formatX (n / 16)) * 16 + digitValue (xdigit (n % 16)) = n
    rw [ih, (xdigit_spec _ (Nat.mod_lt n (by decide))).2]
    omega

theorem formatX_ne_nil (n : ℕ) : formatX n ≠ [] := by
  simp [formatX, Nat.toDigits_ne_nil]

theorem formatX_all {n : ℕ} {P : UInt8 → Prop} (h : ∀ d < 16, P (xdigit d)) : ∀ c ∈ formatX n, P c := by
  intro c hc
  obtain ⟨d, hd, rfl⟩ := formatX_mem hc
  exact h d hd

theorem formatX_inLine (n : ℕ) : ∀ c ∈ formatX n, inLine c = true :=
  formatX_all fun d hd => (xdigit_plain d hd).2.2.2.2.2

theorem skipPrefix_digits {p : Bytes} (hp : ∀ c ∈ p, casecmp c 120 = false) : skipPrefix p = p := by
  unfold skipPrefix
  split
  next x d q =>
    have hx : casecmp x 120 = false := hp x (by simp)
    simp [hx]
  next => rfl

theorem scanSign_plain {c : UInt8} (hplus : c ≠ 43) (hminus : c ≠ 45) (p : Bytes) :
    scanSign (c :: p) = (false, c :: p) := by
  unfold scanSign
  split
  next heq => exact absurd (List.head_eq_of_cons_eq heq) hplus
  next heq => exact absurd (List.head_eq_of_cons_eq heq) hminus
  next => rfl

theorem strtoul_formatX {n : ℕ} (hn : n < 2 ^ 32) : strtoul (formatX n) = some (n, []) := by
  obtain ⟨c, p, hp⟩ := List.exists_cons_of_ne_nil (formatX_ne_nil n)
  obtain ⟨d, hd, rfl⟩ : ∃ d < 16, c = xdigit d := formatX_mem (by rw [hp]; exact List.mem_cons_self)
  have hplain := xdigit_plain d hd
  have hspace : (formatX n).dropWhile ljCharIsspace = formatX n := by
    rw [hp, List.dropWhile_cons_of_neg (by simp [hplain.2.1])]
  have hsign : scanSign (formatX n) = (false, formatX n) := by
    rw [hp, scanSign_plain hplain.2.2.1.1 hplain.2.2.1.2]
  have hskip : skipPrefix (formatX n) = formatX n :=
    skipPrefix_digits (formatX_all fun d hd => (xdigit_plain d hd).1)
  have htake : (formatX n).takeWhile ljCharIsxdigit = formatX n :=
    List.takeWhile_eq_self_iff.mpr (formatX_all fun d hd => (xdigit_spec d hd).1)
  have hdrop : (formatX n).dropWhile ljCharIsxdigit = [] :=
    List.dropWhile_eq_nil_iff.mpr (formatX_all fun d hd => (xdigit_spec d hd).1)
  have hfits : ¬2 ^ 32 ≤ n := by omega
  simp only [strtoul, hspace, hsign, hskip, htake, hdrop, if_neg (formatX_ne_nil n), hexValue_formatX,
    if_neg hfits]
  rfl

theorem tonumber16_formatX {n : ℕ} (hn : n < 2 ^ 32) : tonumber16 (formatX n) = some n := by
  have hcstring : cstring (formatX n) = formatX n :=
    cstring_eq_self.mpr fun h => by
      obtain ⟨d, hd, hzero⟩ := formatX_mem h
      exact (xdigit_plain d hd).2.2.2.1 hzero.symm
  rw [tonumber16, hcstring, strtoul_formatX hn]
  rfl

/-! ## Calls on a connection -/

theorem crlf : bytes "\r\n" = [13, 10] := by
  decide +kernel

section Calls
variable (wstrerror : ℤ → Bytes) {c : Conn} {rest : List Sym}

/-- The error text of a call, if it fails. -/
def errorOf (wstrerror : ℤ → Bytes) (err : ℤ) : Option Bytes :=
  if err = IO_DONE then none else some (socketStrerror wstrerror err)

theorem errorOf_failure (err : Failure) : errorOf wstrerror err.1 = some (socketStrerror wstrerror err.1) :=
  if_neg err.2

theorem sockReceive_view {pat : Pattern} {part : Bytes} {err : ℤ} {b : Bytes} {v : View}
    (h : c.view.receive pat part = some (err, b, v)) :
    ∃ c', sockReceive wstrerror pat part c = .ok (⟨b, errorOf wstrerror err⟩, c') ∧ c'.symbols = v.symbols := by
  have hseen := receive_seen pat part c
  rw [h] at hseen
  unfold sockReceive
  cases hr : receive pat part c with
  | none =>
    rw [hr] at hseen
    cases hseen
  | some r =>
    obtain ⟨err', b', c'⟩ := r
    rw [hr] at hseen
    obtain ⟨rfl, rfl, rfl⟩ : err' = err ∧ b' = b ∧ c'.view = v := by simpa [seen] using hseen
    exact ⟨c', rfl, rfl⟩

theorem sockReceive_line {l : Bytes} (hl : ∀ x ∈ l, inLine x = true) (part : Bytes)
    (h : c.symbols = (l ++ [13, 10]).map .inl ++ rest) :
    ∃ c', sockReceive wstrerror .line part c = .ok (⟨part ++ l, none⟩, c') ∧ c'.symbols = rest := by
  obtain ⟨m, hline⟩ := takeLine_line hl (.inr rfl) part rest c.received
  have hview : c.view.receive .line part = some (IO_DONE, part ++ l, ⟨rest, m⟩) := by
    rw [← hline, ← h]
    rfl
  exact sockReceive_view wstrerror hview

theorem sockReceive_number {d : Bytes} (hd : d ≠ []) (hmax : d.length < 2 ^ 32)
    (h : c.symbols = d.map .inl ++ rest) :
    ∃ c', sockReceive wstrerror (.number d.length) [] c = .ok (⟨d, none⟩, c') ∧ c'.symbols = rest := by
  have hpos : 0 < d.length := List.length_pos_iff.mpr hd
  have hview : c.view.receive (.number d.length) [] = some (IO_DONE, d, ⟨rest, c.received + .ofNat d.length⟩) := by
    rw [receive_number (Nat.zero_add d.length) hmax]
    show takeRaw d.length [] c.symbols c.received = _
    rw [h, takeRaw_pos hpos, takeBytes_bytes, if_pos (le_refl _)]
    simp
  exact sockReceive_view wstrerror hview

/-- An error in the middle of a line. -/
theorem takeLine_cut {p : Bytes} (hp : (10 : UInt8) ∉ p) (b : Bytes) (err : Failure) (n : UInt32) :
    ∃ b' m, takeLine b (p.map .inl ++ .inr err :: rest) n = some (err.1, b', ⟨rest, m⟩) := by
  induction p generalizing b n with
  | nil => exact ⟨b, n, rfl⟩
  | cons x p ih =>
    obtain ⟨hx, hrest⟩ := not_or.mp (fun h => hp (List.mem_cons.mpr h))
    rw [List.map_cons, List.cons_append, takeLine, if_neg (Ne.symm hx)]
    exact ih hrest _ _

theorem sockReceive_line_cut {p : Bytes} (hp : (10 : UInt8) ∉ p) {err : Failure}
    (h : c.symbols = p.map .inl ++ .inr err :: rest) (part : Bytes) :
    ∃ b c', sockReceive wstrerror .line part c = .ok (⟨b, some (socketStrerror wstrerror err.1)⟩, c') ∧
      c'.symbols = rest := by
  obtain ⟨b, m, hline⟩ : ∃ b m, takeLine part (p.map .inl ++ .inr err :: rest) c.received =
      some (err.1, b, ⟨rest, m⟩) := takeLine_cut hp part err c.received
  have hview : c.view.receive .line part = some (err.1, b, ⟨rest, m⟩) := by
    rw [← hline, ← h]
    rfl
  obtain ⟨c', hcall, hsyms⟩ := sockReceive_view wstrerror hview
  rw [errorOf_failure] at hcall
  exact ⟨b, c', hcall, hsyms⟩

/-- An error before there are as many bytes as asked for: the partial result is what there was. -/
theorem sockReceive_number_cut {p : Bytes} {n : ℕ} (hp : p.length < n) (hmax : n < 2 ^ 32) {err : Failure}
    (h : c.symbols = p.map .inl ++ .inr err :: rest) :
    ∃ c', sockReceive wstrerror (.number n) [] c = .ok (⟨p, some (socketStrerror wstrerror err.1)⟩, c') ∧
      c'.symbols = rest := by
  have hview : c.view.receive (.number n) [] = some (err.1, p, ⟨rest, c.received + .ofNat p.length⟩) := by
    rw [receive_number (Nat.zero_add n) hmax]
    show takeRaw n [] c.symbols c.received = _
    obtain ⟨w, hw⟩ : ∃ w, n - p.length = w + 1 := ⟨n - p.length - 1, by omega⟩
    rw [h, takeRaw_pos (by omega), takeBytes_bytes, if_neg (by omega), hw]
    rfl
  obtain ⟨c', hcall, hsyms⟩ := sockReceive_view wstrerror hview
  rw [errorOf_failure] at hcall
  exact ⟨c', hcall, hsyms⟩

/-! ## Sending everything -/

/-- The transport takes as many bytes as this, and has no errors. -/
structure Steady (c : Conn) (count : ℕ) : Prop where
  room : Open c.outgoing count
  calm : (c.outgoing.countP fun s => !s.isTakes) < 1

theorem sockSend_steady {data : Bytes} {count : ℕ} (h : Steady c (data.length + count)) :
    ∃ c', sockSend wstrerror data c = .ok (⟨true, none⟩, c') ∧ c'.wire = c.wire ++ data ∧ Steady c' count := by
  obtain ⟨last, c', hrun, hwire, hroom, hcalm⟩ := sendOn_whole h.room h.calm
  refine ⟨c', ?_, hwire, hroom, hcalm⟩
  unfold sockSend
  unfold sendOn at hrun
  cases hs : send data none none c with
  | none =>
    rw [hs] at hrun
    cases hrun
  | some r =>
    obtain ⟨err, last', c''⟩ := r
    rw [hs] at hrun
    simp only [Option.bind_eq_bind, Option.bind_some] at hrun
    split_ifs at hrun
    · cases hrun
    · cases hrun
      rfl

end Calls

/-! ## The chunked form -/

def chunkText (c : Bytes) : Bytes := formatX c.length ++ bytes "\r\n" ++ c ++ bytes "\r\n"

def lastChunk : Bytes := bytes "0\r\n\r\n"

def chunkedText (cs : List Bytes) : Bytes := cs.flatMap chunkText ++ lastChunk

theorem lastChunk_eq : lastChunk = [48, 13, 10, 13, 10] := by
  decide +kernel

/-- The end of a body is what an empty chunk looks like. -/
theorem chunkText_nil : chunkText [] = lastChunk := by
  decide +kernel

theorem chunkedText_cons (d : Bytes) (cs : List Bytes) : chunkedText (d :: cs) = chunkText d ++ chunkedText cs := by
  rw [chunkedText, List.flatMap_cons, List.append_assoc]
  rfl

theorem chunkText_eq (c : Bytes) : chunkText c = (formatX c.length ++ [13, 10]) ++ (c ++ [13, 10]) := by
  rw [chunkText, crlf]
  simp only [List.append_assoc]

section Chunked
variable {wstrerror : ℤ → Bytes} {τ ω : Type} {snk : Sink ω} {P Q : ω → Bytes → Prop}

theorem pumpAll_sinkHttpChunked {src : Source τ} {e : Option Bytes} {t : τ} {cs : List Bytes}
    (hsrc : Ends src e t cs) {F : ℕ} (hF : cs.length + 1 ≤ F) {c : Conn} {count : ℕ}
    (hroom : Steady c ((chunkedText cs).length + count)) :
    ∃ t' c', pumpAll src (sinkHttpChunked wstrerror) F (t, c) = .ok (⟨e.isNone, e⟩, t', c') ∧
      c'.wire = c.wire ++ chunkedText cs ∧ Steady c' count := by
  induction hsrc generalizing F c with
  | @nil t t' h =>
    obtain ⟨F, rfl⟩ : ∃ k, F = k + 1 := ⟨F - 1, by omega⟩
    obtain ⟨c', hcall, hwire, hroom'⟩ := sockSend_steady wstrerror hroom
    exact ⟨t', c', pumpAll_none h hcall F, hwire, hroom'⟩
  | @cons t t' d cs h rest ih =>
    obtain ⟨F, rfl⟩ : ∃ k, F = k + 1 := ⟨F - 1, by omega⟩
    rw [chunkedText_cons, List.length_append, Nat.add_assoc] at hroom
    rw [List.length_cons] at hF
    obtain ⟨c1, hcall, hwire, hroom1⟩ := sockSend_steady wstrerror hroom
    obtain ⟨t2, c2, hpump, hwire2, hroom2⟩ := ih (F := F) (by omega) hroom1
    refine ⟨t2, c2, ?_, ?_, hroom2⟩
    · rw [pumpAll_some h hcall]
      exact hpump
    · rw [hwire2, hwire, chunkedText_cons, List.append_assoc]

variable {c : Conn} {rest : List Sym}

theorem takeWhile_formatX (n : ℕ) : (formatX n).takeWhile (· ≠ 59) = formatX n := by
  apply List.takeWhile_eq_self_iff.mpr
  intro x hx
  obtain ⟨d, hd, rfl⟩ := formatX_mem hx
  simpa using (xdigit_plain d hd).2.2.2.2.1

theorem chunkSize_formatX {n : ℕ} (hmax : n < 2 ^ 32) : tonumber16 ((formatX n).takeWhile (· ≠ 59)) = some n := by
  rw [takeWhile_formatX, tonumber16_formatX hmax]

/-- The size has been read: what is left is the chunk and its line break. -/
theorem sourceHttpChunked_sized {c1 : Conn} {l : Bytes} {size : ℕ}
    (hline : sockReceive wstrerror .line [] c = .ok (⟨l, none⟩, c1))
    (hsize : tonumber16 (l.takeWhile (· ≠ 59)) = some size) (hpos : 0 < size) (fuel : ℕ) (hs : HeadersArg) :
    sourceHttpChunked wstrerror fuel (hs, c) =
      (sockReceive wstrerror (.number size) [] c1).bind fun (chunk, c2) =>
        if chunk.err.isSome then .ok (⟨none, chunk.err⟩, hs, c2)
        else (sockReceive wstrerror .line [] c2).bind fun (_, c3) => .ok (⟨some chunk.bytes, none⟩, hs, c3) := by
  unfold sourceHttpChunked
  simp only [hline, bind, Except.bind, Option.isSome_none, Bool.false_eq_true, if_false, hsize, if_pos hpos]
  rfl

/-- The size was zero: the headers behind the body end it. -/
theorem sourceHttpChunked_ended {c1 c2 : Conn} {l : Bytes} {hs' : HeadersArg} {fuel : ℕ} {hs : HeadersArg}
    (hline : sockReceive wstrerror .line [] c = .ok (⟨l, none⟩, c1))
    (hsize : tonumber16 (l.takeWhile (· ≠ 59)) = some 0)
    (hheaders : receiveheaders wstrerror fuel hs c1 = .ok (.ok hs', c2)) :
    sourceHttpChunked wstrerror fuel (hs, c) = .ok (⟨none, none⟩, hs', c2) := by
  unfold sourceHttpChunked
  simp only [hline, bind, Except.bind, Option.isSome_none, Bool.false_eq_true, if_false, hsize, lt_irrefl, hheaders]
  rfl

/-- They cannot be read, and those there were are gone. -/
theorem sourceHttpChunked_lost {c1 c2 : Conn} {l err : Bytes} {fuel : ℕ} {hs : HeadersArg}
    (hline : sockReceive wstrerror .line [] c = .ok (⟨l, none⟩, c1))
    (hsize : tonumber16 (l.takeWhile (· ≠ 59)) = some 0)
    (hheaders : receiveheaders wstrerror fuel hs c1 = .ok (.error err, c2)) :
    sourceHttpChunked wstrerror fuel (hs, c) = .ok (⟨none, some err⟩, .nil, c2) := by
  unfold sourceHttpChunked
  simp only [hline, bind, Except.bind, Option.isSome_none, Bool.false_eq_true, if_false, hsize, lt_irrefl, hheaders]
  rfl

/-- A chunk that is there; how the line behind it is read makes no difference. -/
theorem sourceHttpChunked_read {c1 c2 c3 : Conn} {d : Bytes} {r : Received} (hd : d ≠ []) (hmax : d.length < 2 ^ 32)
    (hline : sockReceive wstrerror .line [] c = .ok (⟨formatX d.length, none⟩, c1))
    (hchunk : sockReceive wstrerror (.number d.length) [] c1 = .ok (⟨d, none⟩, c2))
    (hend : sockReceive wstrerror .line [] c2 = .ok (r, c3)) (fuel : ℕ) (hs : HeadersArg) :
    sourceHttpChunked wstrerror fuel (hs, c) = .ok (⟨some d, none⟩, hs, c3) := by
  rw [sourceHttpChunked_sized hline (chunkSize_formatX hmax) (List.length_pos_iff.mpr hd), hchunk]
  simp only [Except.bind, Option.isSome_none, Bool.false_eq_true, if_false, hend]

theorem sourceHttpChunked_chunk {d : Bytes} (hd : d ≠ []) (hmax : d.length < 2 ^ 32)
    (h : c.symbols = (chunkText d).map .inl ++ rest) (fuel : ℕ) (hs : HeadersArg) :
    ∃ c', sourceHttpChunked wstrerror fuel (hs, c) = .ok (⟨some d, none⟩, hs, c') ∧ c'.symbols = rest := by
  rw [chunkText_eq, List.map_append, List.append_assoc] at h
  obtain ⟨c1, hcall1, hsyms1⟩ := sockReceive_line wstrerror (formatX_inLine _) [] h
  rw [List.map_append, List.append_assoc] at hsyms1
  obtain ⟨c2, hcall2, hsyms2⟩ := sockReceive_number wstrerror hd hmax hsyms1
  obtain ⟨c3, hcall3, hsyms3⟩ := sockReceive_line wstrerror (l := []) (by simp) [] hsyms2
  exact ⟨c3, sourceHttpChunked_read hd hmax hcall1 hcall2 hcall3 fuel hs, hsyms3⟩

theorem zero_inLine : ∀ x ∈ ([48] : Bytes), inLine x = true := by
  intro x hx
  rw [List.mem_singleton.mp hx]
  rfl

theorem chunkSize_zero : tonumber16 (([48] : Bytes).takeWhile (· ≠ 59)) = some 0 := by
  decide

theorem sourceHttpChunked_last (h : c.symbols = lastChunk.map .inl ++ rest) (fuel : ℕ) (hs : HeadersArg) :
    ∃ hs' c', sourceHttpChunked wstrerror (fuel + 1) (hs, c) = .ok (⟨none, none⟩, hs', c') ∧ c'.symbols = rest := by
  have hsplit : lastChunk = ([48] ++ [13, 10]) ++ ([] ++ [13, 10]) := lastChunk_eq
  rw [hsplit, List.map_append, List.append_assoc] at h
  obtain ⟨c1, hcall1, hsyms1⟩ := sockReceive_line wstrerror zero_inLine [] h
  obtain ⟨c2, hcall2, hsyms2⟩ := sockReceive_line wstrerror (l := []) (by simp) [] hsyms1
  have hempty : receiveheaders wstrerror (fuel + 1) hs c1 = .ok (.ok hs.orTable, c2) := by
    simp only [receiveheaders, hcall2, List.nil_append, bind, Except.bind, headersLoop, if_true]
  exact ⟨hs.orTable, c2, sourceHttpChunked_ended hcall1 chunkSize_zero hempty, hsyms2⟩

/-- What lies behind the first empty chunk. -/
def unread : List Bytes → Bytes
  | [] => []
  | d :: cs => if d = [] then chunkedText cs else unread cs

theorem unread_eq_nil {cs : List Bytes} (hne : ∀ d ∈ cs, d ≠ []) : unread cs = [] := by
  induction cs with
  | nil => rfl
  | cons d cs ih =>
    obtain ⟨hd, hne'⟩ := List.forall_mem_cons.mp hne
    rw [unread, if_neg hd]
    exact ih hne'

variable (wstrerror) in
/-- The chunks up to the first empty one. -/
theorem pumpAll_sourceHttpChunked (fuel : ℕ) (hsnk : Takes snk P Q) {cs : List Bytes}
    (hmax : ∀ d ∈ cs, d.length < 2 ^ 32) {F : ℕ} (hF : cs.length + 1 ≤ F) {w : ω} {s : Bytes} (hw : P w s) (hs : HeadersArg)
    (h : c.symbols = (chunkedText cs).map .inl ++ rest) :
    ∃ hs' c' w', pumpAll (sourceHttpChunked wstrerror (fuel + 1)) snk F ((hs, c), w) =
        .ok (⟨true, none⟩, (hs', c'), w') ∧
      Q w' (s ++ (cs.takeWhile (· ≠ [])).flatten) ∧ c'.symbols = (unread cs).map .inl ++ rest := by
  induction cs generalizing F c w s with
  | nil =>
    obtain ⟨F, rfl⟩ : ∃ k, F = k + 1 := ⟨F - 1, by omega⟩
    obtain ⟨hs', c', hcall, hsyms⟩ := sourceHttpChunked_last h fuel hs
    obtain ⟨w', htake, hQ⟩ := hsnk.none hw none
    exact ⟨hs', c', w', pumpAll_none hcall htake F, by simpa using hQ, hsyms⟩
  | cons d cs ih =>
    obtain ⟨F, rfl⟩ : ∃ k, F = k + 1 := ⟨F - 1, by omega⟩
    rw [List.length_cons] at hF
    rw [chunkedText_cons, List.map_append, List.append_assoc] at h
    by_cases hd : d = []
    · subst hd
      rw [chunkText_nil] at h
      obtain ⟨hs', c', hcall, hsyms⟩ := sourceHttpChunked_last h fuel hs
      obtain ⟨w', htake, hQ⟩ := hsnk.none hw none
      exact ⟨hs', c', w', pumpAll_none hcall htake F, by simpa using hQ, hsyms⟩
    · obtain ⟨hlen, hmax'⟩ := List.forall_mem_cons.mp hmax
      obtain ⟨c1, hcall, hsyms⟩ := sourceHttpChunked_chunk hd hlen h (fuel + 1) hs
      obtain ⟨w1, htake, hP⟩ := hsnk.some hw d none
      obtain ⟨hs', c', w', hpump, hQ, hend⟩ := ih hmax' (F := F) (by omega) hP hsyms
      refine ⟨hs', c', w', ?_, ?_, ?_⟩
      · rw [pumpAll_some hcall htake]
        exact hpump
      · rw [List.takeWhile_cons_of_pos (by simpa using hd), List.flatten_cons, ← List.append_assoc]
        exact hQ
      · rw [unread, if_neg hd]
        exact hend

/-- A body that is sent in chunks is received up to its first empty chunk, which ends it; and it is received as
a whole body also where the source has failed. -/
theorem chunked_delivered (hsnk : Takes snk P Q) {src : Source τ} {e : Option Bytes} {t : τ} {cs : List Bytes}
    (hsrc : Ends src e t cs) (hmax : ∀ d ∈ cs, d.length < 2 ^ 32) {F fuel : ℕ} (hF : cs.length + 1 ≤ F)
    {c : Conn} (hroom : Steady c (chunkedText cs).length) {w : ω} {s : Bytes} (hw : P w s) :
    ∃ t' c' sent, pumpAll src (sinkHttpChunked wstrerror) F (t, c) = .ok (⟨e.isNone, e⟩, t', c') ∧
      c'.wire = c.wire ++ sent ∧
      ∀ (d : Conn) (rest : List Sym) (hs : HeadersArg), d.symbols = sent.map .inl ++ rest →
        ∃ hs' d' w', pumpAll (sourceHttpChunked wstrerror (fuel + 1)) snk F ((hs, d), w) =
            .ok (⟨true, none⟩, (hs', d'), w') ∧
          Q w' (s ++ (cs.takeWhile (· ≠ [])).flatten) ∧ d'.symbols = (unread cs).map .inl ++ rest := by
  have hroom' : Steady c ((chunkedText cs).length + 0) := hroom
  obtain ⟨t', c', hpump, hwire, -⟩ := pumpAll_sinkHttpChunked hsrc hF hroom'
  exact ⟨t', c', _, hpump, hwire, fun d rest hs h =>
    pumpAll_sourceHttpChunked wstrerror fuel hsnk hmax hF hw hs h⟩

/-- A source that gives these chunks, and ends with an error or without. -/
def chunkSource (e : Option Bytes) : Source (List Bytes)
  | [] => .ok (⟨none, e⟩, [])
  | c :: cs => .ok (⟨some c, none⟩, cs)

theorem chunkSource_ends (e : Option Bytes) (cs : List Bytes) : Ends (chunkSource e) e cs cs := by
  induction cs with
  | nil => exact .nil rfl
  | cons c cs ih => exact .cons rfl ih

/-- A connection that takes this many bytes, one at a time. -/
def takingConn (count : ℕ) : Conn := ⟨[], 0, 0, [], List.replicate count (.takes 1 Nat.one_pos), []⟩

theorem takingConn_steady (count : ℕ) : Steady (takingConn count) count := by
  refine ⟨⟨?_, ?_⟩, ?_⟩
  · simp [takingConn, List.countP_replicate, Sent.isTakes]
  · intro err herr
    simp [takingConn] at herr
  · simp [takingConn, List.countP_replicate, Sent.isTakes]

theorem chunked_delivered_sample :
    ∃ t' c' sent, pumpAll (chunkSource (some (bytes "e"))) (sinkHttpChunked fun _ => []) 4
        ([bytes "ab", [], bytes "c"], takingConn (chunkedText [bytes "ab", [], bytes "c"]).length) =
          .ok (⟨false, some (bytes "e")⟩, t', c') ∧
      c'.wire = [] ++ sent ∧
      ∀ (d : Conn) (rest : List Sym) (hs : HeadersArg), d.symbols = sent.map .inl ++ rest →
        ∃ hs' d' got, pumpAll (sourceHttpChunked (fun _ => []) 1) sinkTable 4 ((hs, d), []) =
            .ok (⟨true, none⟩, (hs', d'), got) ∧
          got.flatten = [] ++ ([bytes "ab", [], bytes "c"].takeWhile (· ≠ [])).flatten ∧
          d'.symbols = (unread [bytes "ab", [], bytes "c"]).map .inl ++ rest :=
  chunked_delivered sinkTable_takes (chunkSource_ends (some (bytes "e")) _) (by decide +kernel) (by decide)
    (takingConn_steady _) rfl

/-! ## A body that is cut off -/

/-- A part of a text that begins with a line has the line whole, or no line break. -/
theorem prefix_line {l tail p : Bytes} (hl : ∀ x ∈ l, inLine x = true) (hp : p <+: (l ++ [13, 10]) ++ tail) :
    (10 : UInt8) ∉ p ∨ ∃ q, p = (l ++ [13, 10]) ++ q ∧ q <+: tail := by
  obtain hshort | hlong := List.prefix_or_prefix_of_prefix hp (List.prefix_append (l ++ [13, 10]) tail)
  · have hsplit : l ++ [13, 10] = (l ++ [13]) ++ [10] := by simp
    rw [hsplit, List.prefix_concat_iff] at hshort
    obtain rfl | hshort := hshort
    · exact .inr ⟨[], by simp, List.nil_prefix⟩
    · left
      intro hmem
      obtain hmem | hmem := List.mem_append.mp (hshort.subset hmem)
      · exact absurd (hl 10 hmem) (by decide)
      · exact absurd hmem (by decide)
  · obtain ⟨q, rfl⟩ := hlong
    exact .inr ⟨q, rfl, (List.prefix_append_right_inj _).mp hp⟩

/-- An error in the size of a chunk. -/
theorem sourceHttpChunked_failed {r : Received} {err : Bytes} {c1 : Conn}
    (hline : sockReceive wstrerror .line [] c = .ok (⟨r.bytes, some err⟩, c1)) (fuel : ℕ) (hs : HeadersArg) :
    sourceHttpChunked wstrerror fuel (hs, c) = .ok (⟨none, some err⟩, hs, c1) := by
  unfold sourceHttpChunked
  simp only [hline]
  rfl

/-- The pump fails, with as much as the source has given. -/
def Fails (wstrerror : ℤ → Bytes) (fuel : ℕ) (snk : Sink ω) (Q : ω → Bytes → Prop) (F : ℕ) (hs : HeadersArg) (c : Conn)
    (w : ω) (err : Failure) (s : Bytes) : Prop :=
  ∃ hs' c' w', pumpAll (sourceHttpChunked wstrerror fuel) snk F ((hs, c), w) =
    .ok (⟨false, some (socketStrerror wstrerror err.1)⟩, (hs', c'), w') ∧ Q w' s

theorem fails_of_error (hsnk : Takes snk P Q) {hs hs' : HeadersArg} {c1 : Conn} {err : Failure} {fuel : ℕ}
    (h : sourceHttpChunked wstrerror fuel (hs, c) = .ok (⟨none, some (socketStrerror wstrerror err.1)⟩, hs', c1))
    {w : ω} {s : Bytes} (hw : P w s) (F : ℕ) : Fails wstrerror fuel snk Q (F + 1) hs c w err s := by
  obtain ⟨w', htake, hQ⟩ := hsnk.none hw (some (socketStrerror wstrerror err.1))
  exact ⟨hs', c1, w', pumpAll_none h htake F, hQ⟩

/-- A part of a text that begins with a chunk stops in the line of its size, in the chunk, in the line behind it,
or has the chunk whole. -/
theorem prefix_chunk {d tail p : Bytes} (hp : p <+: chunkText d ++ tail) :
    (10 : UInt8) ∉ p ∨
    (∃ q, p = (formatX d.length ++ [13, 10]) ++ q ∧ q.length < d.length) ∨
    (∃ r, p = (formatX d.length ++ [13, 10]) ++ (d ++ r) ∧ (10 : UInt8) ∉ r) ∨
    ∃ r, p = chunkText d ++ r ∧ r <+: tail := by
  have hsplit (q : Bytes) :
      chunkText d ++ q = (formatX d.length ++ [13, 10]) ++ (d ++ (([] ++ [13, 10]) ++ q)) := by
    rw [chunkText_eq]
    simp only [List.append_assoc, List.nil_append]
  rw [hsplit] at hp
  obtain hline | ⟨q, rfl, hq⟩ := prefix_line (formatX_inLine d.length) hp
  · exact .inl hline
  right
  by_cases hlen : q.length < d.length
  · exact .inl ⟨q, rfl, hlen⟩
  right
  obtain ⟨r, rfl⟩ : d <+: q := List.prefix_of_prefix_length_le (List.prefix_append _ _) hq (by omega)
  rw [List.prefix_append_right_inj] at hq
  obtain hr | ⟨r', rfl, hr'⟩ := prefix_line (l := []) (by simp) hq
  · exact .inl ⟨r, rfl, hr⟩
  · exact .inr ⟨r', (hsplit r').symm, hr'⟩

section Cut
variable {err : Failure} {w : ω} {s : Bytes}

theorem fails_in_line (hsnk : Takes snk P Q) {p : Bytes} (hp : (10 : UInt8) ∉ p)
    (h : c.symbols = p.map .inl ++ .inr err :: rest) (hw : P w s) (fuel : ℕ) (hs : HeadersArg) (F : ℕ) :
    Fails wstrerror fuel snk Q (F + 1) hs c w err s := by
  obtain ⟨b, c1, hcall, -⟩ := sockReceive_line_cut wstrerror hp h []
  exact fails_of_error hsnk (sourceHttpChunked_failed (r := ⟨b, none⟩) hcall fuel hs) hw F

theorem fails_in_chunk (hsnk : Takes snk P Q) {n : ℕ} (hmax : n < 2 ^ 32) {q : Bytes} (hq : q.length < n)
    (h : c.symbols = ((formatX n ++ [13, 10]) ++ q).map .inl ++ .inr err :: rest) (hw : P w s) (fuel : ℕ)
    (hs : HeadersArg) (F : ℕ) : Fails wstrerror fuel snk Q (F + 1) hs c w err s := by
  rw [List.map_append, List.append_assoc] at h
  obtain ⟨c1, hcall1, hsyms1⟩ := sockReceive_line wstrerror (formatX_inLine n) [] h
  obtain ⟨c2, hcall2, -⟩ := sockReceive_number_cut wstrerror hq hmax hsyms1
  have hsource : sourceHttpChunked wstrerror fuel (hs, c) =
      .ok (⟨none, some (socketStrerror wstrerror err.1)⟩, hs, c2) := by
    rw [sourceHttpChunked_sized hcall1 (chunkSize_formatX hmax) (by omega), hcall2]
    rfl
  exact fails_of_error hsnk hsource hw F

/-- A chunk is passed on, and the pump fails at what follows. -/
theorem fails_after {d : Bytes} {hs hs1 : HeadersArg} {c1 : Conn} {w1 : ω} {fuel F : ℕ}
    (hcall : sourceHttpChunked wstrerror fuel (hs, c) = .ok (⟨some d, none⟩, hs1, c1))
    (htake : snk (some d) none w = .ok (⟨true, none⟩, w1)) (hfails : Fails wstrerror fuel snk Q F hs1 c1 w1 err s) :
    Fails wstrerror fuel snk Q (F + 1) hs c w err s := by
  obtain ⟨hs', c', w', hpump, hQ⟩ := hfails
  refine ⟨hs', c', w', ?_, hQ⟩
  rw [pumpAll_some hcall htake]
  exact hpump

/-- Behind a chunk the error is not looked at. It shows when the size of the next one is asked for. -/
theorem fails_behind_chunk (hsnk : Takes snk P Q) {d : Bytes} (hd : d ≠ []) (hmax : d.length < 2 ^ 32) {r : Bytes}
    (hr : (10 : UInt8) ∉ r)
    (h : c.symbols = ((formatX d.length ++ [13, 10]) ++ (d ++ r)).map .inl ++ .inr err :: .inr err :: rest)
    (hw : P w s) (fuel : ℕ) (hs : HeadersArg) (F : ℕ) :
    Fails wstrerror fuel snk Q (F + 2) hs c w err (s ++ d) := by
  rw [List.map_append, List.append_assoc] at h
  obtain ⟨c1, hcall1, hsyms1⟩ := sockReceive_line wstrerror (formatX_inLine _) [] h
  rw [List.map_append, List.append_assoc] at hsyms1
  obtain ⟨c2, hcall2, hsyms2⟩ := sockReceive_number wstrerror hd hmax hsyms1
  obtain ⟨b, c3, hcall3, hsyms3⟩ := sockReceive_line_cut wstrerror hr hsyms2 []
  obtain ⟨w1, htake, hP⟩ := hsnk.some hw d none
  exact fails_after (sourceHttpChunked_read hd hmax hcall1 hcall2 hcall3 fuel hs) htake
    (fails_in_line (p := []) hsnk (by simp) hsyms3 hP fuel hs F)

/-- The last chunk is there, and the headers behind it are not. -/
theorem fails_in_last (hsnk : Takes snk P Q) {p : Bytes} (hp : p <+: lastChunk) (hshort : p ≠ lastChunk)
    (h : c.symbols = p.map .inl ++ .inr err :: rest) (hw : P w s) (fuel : ℕ) (hs : HeadersArg) (F : ℕ) :
    Fails wstrerror fuel snk Q (F + 1) hs c w err s := by
  have hsplit : lastChunk = ([48] ++ [13, 10]) ++ (([] ++ [13, 10]) ++ []) := lastChunk_eq
  rw [hsplit] at hp
  obtain hline | ⟨q, rfl, hq⟩ := prefix_line zero_inLine hp
  · exact fails_in_line hsnk hline h hw fuel hs F
  have hline : (10 : UInt8) ∉ q := by
    obtain hline | ⟨q', rfl, hq'⟩ := prefix_line (l := []) (by simp) hq
    · exact hline
    · obtain rfl := List.prefix_nil.mp hq'
      exact absurd hsplit.symm hshort
  rw [List.map_append, List.append_assoc] at h
  obtain ⟨c1, hcall1, hsyms1⟩ := sockReceive_line wstrerror zero_inLine [] h
  obtain ⟨b, c2, hcall2, -⟩ := sockReceive_line_cut wstrerror hline hsyms1 []
  have hheaders : receiveheaders wstrerror fuel hs c1 = .ok (.error (socketStrerror wstrerror err.1), c2) := by
    rw [receiveheaders, hcall2]
    rfl
  exact fails_of_error hsnk (sourceHttpChunked_lost hcall1 chunkSize_zero hheaders) hw F

end Cut

/-- A body as `sinkHttpChunked` writes it (capital digits, no extension and no trailer) that is cut off anywhere
before its end: the pump says so, and has passed on whole chunks of it. -/
theorem chunked_cut (hsnk : Takes snk P Q) {cs : List Bytes} (hne : ∀ d ∈ cs, d ≠ [])
    (hmax : ∀ d ∈ cs, d.length < 2 ^ 32) {p : Bytes} (hp : p <+: chunkedText cs) (hshort : p ≠ chunkedText cs)
    {F fuel : ℕ} (hF : cs.length + 2 ≤ F) {w : ω} {s : Bytes} (hw : P w s) (hs : HeadersArg) {err : Failure}
    (h : c.symbols = p.map .inl ++ .inr err :: .inr err :: rest) :
    ∃ k, Fails wstrerror (fuel + 1) snk Q F hs c w err (s ++ (cs.take k).flatten) := by
  induction cs generalizing p F c w s with
  | nil =>
    obtain ⟨F, rfl⟩ : ∃ k, F = k + 1 := ⟨F - 1, by omega⟩
    refine ⟨0, ?_⟩
    rw [List.take_nil, List.flatten_nil, List.append_nil]
    exact fails_in_last hsnk hp hshort h hw (fuel + 1) hs F
  | cons d cs ih =>
    obtain ⟨F, rfl⟩ : ∃ k, F = k + 2 := ⟨F - 2, by omega⟩
    rw [List.length_cons] at hF
    obtain ⟨hd, hne'⟩ := List.forall_mem_cons.mp hne
    obtain ⟨hlen, hmax'⟩ := List.forall_mem_cons.mp hmax
    have hnone : s ++ ((d :: cs).take 0).flatten = s := by simp
    have hone : s ++ ((d :: cs).take 1).flatten = s ++ d := by simp
    rw [chunkedText_cons] at hp hshort
    obtain hline | ⟨q, rfl, hq⟩ | ⟨r, rfl, hr⟩ | ⟨r, rfl, hr⟩ := prefix_chunk hp
    · refine ⟨0, ?_⟩
      rw [hnone]
      exact fails_in_line hsnk hline h hw (fuel + 1) hs (F + 1)
    · refine ⟨0, ?_⟩
      rw [hnone]
      exact fails_in_chunk hsnk hlen hq h hw (fuel + 1) hs (F + 1)
    · refine ⟨1, ?_⟩
      rw [hone]
      exact fails_behind_chunk hsnk hd hlen hr h hw (fuel + 1) hs F
    · have hrest : r ≠ chunkedText cs := by
        rintro rfl
        exact hshort rfl
      rw [List.map_append, List.append_assoc] at h
      obtain ⟨c1, hcall, hsyms⟩ := sourceHttpChunked_chunk hd hlen h (fuel + 1) hs
      obtain ⟨w1, htake, hP⟩ := hsnk.some hw d none
      obtain ⟨k, hfails⟩ := ih hne' hmax' hr hrest (F := F + 1) (by omega) hP hsyms
      refine ⟨k + 1, fails_after hcall htake ?_⟩
      rw [List.take_succ_cons, List.flatten_cons, ← List.append_assoc]
      exact hfails

theorem chunked_cut_sample :
    ∃ k, Fails (fun _ => []) 1 sinkTable (fun t s => t.flatten = s) 3 .nil
      ⟨[50, 13, 10, 97, 98], 0, 0, List.replicate 2 (.fail ⟨IO_CLOSED, by decide⟩), [], []⟩ [] ⟨IO_CLOSED, by decide⟩
      ([] ++ ([bytes "ab"].take k).flatten) :=
  have h : Conn.symbols ⟨[50, 13, 10, 97, 98], 0, 0, List.replicate 2 (.fail ⟨IO_CLOSED, by decide⟩), [], []⟩ =
      ([50, 13, 10, 97, 98] : Bytes).map .inl ++ .inr ⟨IO_CLOSED, by decide⟩ :: .inr ⟨IO_CLOSED, by decide⟩ :: [] := rfl
  chunked_cut sinkTable_takes (by decide +kernel) (by decide +kernel) (by decide +kernel) (by decide +kernel)
    (by decide) rfl .nil h

end Chunked

/-! ## A body of a known length -/

section ByLength
variable {wstrerror : ℤ → Bytes} {τ ω : Type} {snk : Sink ω} {P Q : ω → Bytes → Prop} {c : Conn} {rest : List Sym}

theorem pumpAll_sinkKeepOpen {src : Source τ} {e : Option Bytes} {t : τ} {cs : List Bytes} (hsrc : Ends src e t cs)
    {F : ℕ} (hF : cs.length + 1 ≤ F) {count : ℕ} (hroom : Steady c (cs.flatten.length + count)) :
    ∃ t' c', pumpAll src (sinkKeepOpen wstrerror) F (t, c) = .ok (⟨e.isNone, e⟩, t', c') ∧
      c'.wire = c.wire ++ cs.flatten ∧ Steady c' count := by
  induction hsrc generalizing F c with
  | @nil t t' h =>
    obtain ⟨F, rfl⟩ : ∃ k, F = k + 1 := ⟨F - 1, by omega⟩
    rw [List.flatten_nil, List.length_nil, Nat.zero_add] at hroom
    exact ⟨t', c, pumpAll_none h rfl F, by simp, hroom⟩
  | @cons t t' d cs h rest ih =>
    obtain ⟨F, rfl⟩ : ∃ k, F = k + 1 := ⟨F - 1, by omega⟩
    rw [List.flatten_cons, List.length_append, Nat.add_assoc] at hroom
    rw [List.length_cons] at hF
    obtain ⟨c1, hcall, hwire, hroom1⟩ := sockSend_steady wstrerror hroom
    obtain ⟨t2, c2, hpump, hwire2, hroom2⟩ := ih (F := F) (by omega) hroom1
    refine ⟨t2, c2, ?_, ?_, hroom2⟩
    · rw [pumpAll_some h hcall]
      exact hpump
    · rw [hwire2, hwire, List.flatten_cons, List.append_assoc]

/-- Numbers that count bytes: what stands for `n` is spent at none, and stands for what is left of them. -/
structure Counts {N : Type} [Length N] (R : ℕ → N → Prop) : Prop where
  spent {n : ℕ} {x : N} (h : R n x) : Length.spent x = decide (n = 0)
  size {n : ℕ} {x : N} (h : R n x) : Length.size x = min 2048 n
  minus {n k : ℕ} {x : N} (h : R n x) (hk : k ≤ n) : R (n - k) (Length.minus x k)

theorem counts_int : Counts fun n (x : ℤ) => x = n where
  spent := by
    rintro n _ rfl
    exact decide_eq_decide.mpr (by omega)
  size := by
    rintro n _ rfl
    show (min (2048 : ℤ) n).toNat = min 2048 n
    omega
  minus := by
    rintro n k _ rfl hk
    exact (Nat.cast_sub hk).symm

section Doubles
open ExactDouble

theorem toCUInt_isNat {x : LuaNumber} {n : ℕ} (h : IsNat x n) (hn : n < 2 ^ 32) : toCUInt x = n := by
  have hsame : truncated x = truncated (Float.ofNat n) := by rw [truncated, truncated, h]
  rw [toCUInt, hsame]
  exact toCUInt_ofNat hn

/-- A double counts as an integer does, as long as it is one exactly. -/
theorem counts_number : Counts fun n (x : LuaNumber) => n < 2 ^ 53 ∧ IsNat x n where
  spent := by
    rintro n x ⟨hn, hx⟩
    exact decide_eq_decide.mpr (hx.le_zero hn)
  size := by
    rintro n x ⟨hn, hx⟩
    have hblock : Float.ofNat socketBLOCKSIZE < x ↔ 2048 < n := hx.lt_iff (by decide) (by decide) hn
    have hsize : Length.size x = toCUInt
        (if Float.ofNat socketBLOCKSIZE < x then Float.ofNat socketBLOCKSIZE else x) := rfl
    rw [hsize]
    by_cases hlong : 2048 < n
    · rw [if_pos (hblock.mpr hlong), toCUInt_ofNat (by decide), Nat.min_eq_left hlong.le, socketBLOCKSIZE]
    · rw [if_neg (hlong ∘ hblock.mp), toCUInt_isNat hx (by omega), Nat.min_eq_right (by omega)]
  minus := by
    rintro n k x ⟨hn, hx⟩ hk
    exact ⟨by omega, hx.sub hk hn⟩

end Doubles

section Counted
variable {N : Type} [Length N] {R : ℕ → N → Prop} (hR : Counts R)
include hR

/-- The next piece of a body, as much as is asked for at a time. -/
theorem sourceByLength_piece {n : ℕ} (hn : 0 < n) {x : N} (hx : R n x) {d tail : Bytes}
    (hd : d.length = min 2048 n) (h : c.symbols = (d ++ tail).map .inl ++ rest) :
    ∃ x' c', sourceByLength wstrerror (x, c) = .ok (⟨some d, none⟩, x', c') ∧ R (n - d.length) x' ∧
      c'.symbols = tail.map .inl ++ rest := by
  have hne : d ≠ [] := by
    intro hnil
    rw [hnil, List.length_nil] at hd
    omega
  rw [List.map_append, List.append_assoc] at h
  obtain ⟨c', hcall, hsyms⟩ := sockReceive_number wstrerror hne (by omega) h
  have hspent : Length.spent x = false := (hR.spent hx).trans (decide_eq_false hn.ne')
  have hsize : Length.size x = d.length := (hR.size hx).trans hd.symm
  have hleft : d.length ≤ n := by omega
  refine ⟨_, c', ?_, hR.minus hx hleft, hsyms⟩
  simp only [sourceByLength, hspent, hsize, hcall, bind, Except.bind, Option.isSome_none, Bool.false_eq_true, if_false]
  rfl

variable (wstrerror) in
theorem pumpAll_sourceByLength (hsnk : Takes snk P Q) {body : Bytes} {x : N} (hx : R body.length x) {F : ℕ}
    (hF : body.length + 1 ≤ F) {w : ω} {s : Bytes} (hw : P w s) (h : c.symbols = body.map .inl ++ rest) :
    ∃ x' c' w', pumpAll (sourceByLength wstrerror) snk F ((x, c), w) =
        .ok (⟨true, none⟩, (x', c'), w') ∧ Q w' (s ++ body) ∧ c'.symbols = rest := by
  induction hlen : body.length using Nat.strong_induction_on generalizing body F x c w s with
  | _ n ih =>
    obtain ⟨F, rfl⟩ : ∃ k, F = k + 1 := ⟨F - 1, by omega⟩
    rw [hlen] at hx
    obtain rfl | hpos := Nat.eq_zero_or_pos n
    · obtain rfl := List.length_eq_zero_iff.mp hlen
      obtain ⟨w', htake, hQ⟩ := hsnk.none hw none
      have hsource : sourceByLength wstrerror (x, c) = .ok (⟨none, none⟩, x, c) := by
        have hspent : Length.spent x = true := hR.spent hx
        simp only [sourceByLength, hspent, if_true]
      exact ⟨x, c, w', pumpAll_none hsource htake F, by simpa using hQ, h⟩
    · have hsplit : body = body.take (min 2048 n) ++ body.drop (min 2048 n) := (List.take_append_drop _ _).symm
      have htakelen : (body.take (min 2048 n)).length = min 2048 n := by
        rw [List.length_take]
        omega
      rw [hsplit] at h
      obtain ⟨x1, c1, hcall, hx1, hsyms⟩ := sourceByLength_piece hR hpos hx htakelen h
      obtain ⟨w1, htake, hP⟩ := hsnk.some hw (body.take (min 2048 n)) none
      have hdroplen : (body.drop (min 2048 n)).length = n - (body.take (min 2048 n)).length := by
        rw [List.length_drop, htakelen, hlen]
      rw [← hdroplen] at hx1
      obtain ⟨m, c2, w2, hpump, hQ, hend⟩ :=
        ih (n - (body.take (min 2048 n)).length) (by omega) hx1 (F := F) (by omega) hP hsyms hdroplen
      refine ⟨m, c2, w2, ?_, ?_, hend⟩
      · rw [pumpAll_some hcall htake]
        exact hpump
      · rw [List.append_assoc, List.take_append_drop] at hQ
        exact hQ

/-- The connection ends before there is as much as announced. -/
theorem pumpAll_sourceByLength_cut (hsnk : Takes snk P Q) {p : Bytes} {n : ℕ} (hp : p.length < n) {x : N}
    (hx : R n x) {F : ℕ} (hF : p.length + 1 ≤ F) {w : ω} {s : Bytes} (hw : P w s) {err : Failure}
    (h : c.symbols = p.map .inl ++ .inr err :: rest) :
    ∃ k x' c' w', pumpAll (sourceByLength wstrerror) snk F ((x, c), w) =
        .ok (⟨false, some (socketStrerror wstrerror err.1)⟩, (x', c'), w') ∧ Q w' (s ++ p.take k) := by
  induction hlen : p.length using Nat.strong_induction_on generalizing p n F x c w s with
  | _ size ih =>
    obtain ⟨F, rfl⟩ : ∃ k, F = k + 1 := ⟨F - 1, by omega⟩
    by_cases hpiece : p.length < min 2048 n
    · have hspent : Length.spent x = false := (hR.spent hx).trans (decide_eq_false (by omega))
      obtain ⟨c', hcall, -⟩ := sockReceive_number_cut wstrerror hpiece (by omega) h
      obtain ⟨w', htake, hQ⟩ := hsnk.none hw (some (socketStrerror wstrerror err.1))
      have hsource : sourceByLength wstrerror (x, c) =
          .ok (⟨none, some (socketStrerror wstrerror err.1)⟩, x, c') := by
        simp only [sourceByLength, hspent, hR.size hx, hcall]
        rfl
      exact ⟨0, x, c', w', pumpAll_none hsource htake F, by simpa using hQ⟩
    · have hsplit : p = p.take (min 2048 n) ++ p.drop (min 2048 n) := (List.take_append_drop _ _).symm
      have htakelen : (p.take (min 2048 n)).length = min 2048 n := by
        rw [List.length_take]
        omega
      have hdroplen : (p.drop (min 2048 n)).length = p.length - min 2048 n := List.length_drop
      rw [hsplit] at h
      obtain ⟨x1, c1, hcall, hx1, hsyms⟩ := sourceByLength_piece hR (by omega) hx htakelen h
      obtain ⟨w1, htake, hP⟩ := hsnk.some hw (p.take (min 2048 n)) none
      obtain ⟨k, m, c2, w2, hpump, hQ⟩ := ih _ (by omega) (n := n - (p.take (min 2048 n)).length) (by omega) hx1
        (F := F) (by omega) hP hsyms rfl
      refine ⟨min 2048 n + k, m, c2, w2, ?_, ?_⟩
      · rw [pumpAll_some hcall htake]
        exact hpump
      · rw [List.take_add, ← List.append_assoc]
        exact hQ

end Counted

/-- A body that is sent as it is. Whatever length has been announced, as much as that is received of it; a
longer one than has been sent is an error when the connection ends. -/
theorem length_delivered (hsnk : Takes snk P Q) {src : Source τ} {e : Option Bytes} {t : τ} {cs : List Bytes}
    (hsrc : Ends src e t cs) {F : ℕ} (hF : cs.length + 1 ≤ F) {c : Conn} (hroom : Steady c cs.flatten.length)
    {w : ω} {s : Bytes} (hw : P w s) :
    ∃ t' c' sent, pumpAll src (sinkKeepOpen wstrerror) F (t, c) = .ok (⟨e.isNone, e⟩, t', c') ∧
      c'.wire = c.wire ++ sent ∧ sent = cs.flatten ∧
      ∀ (n fuel : ℕ), sent.length + 1 ≤ fuel →
        (n ≤ sent.length → ∀ (d : Conn) (rest : List Sym), d.symbols = sent.map .inl ++ rest →
          ∃ m d' w', pumpAll (sourceByLength wstrerror) snk fuel (((n : ℤ), d), w) =
              .ok (⟨true, none⟩, (m, d'), w') ∧
            Q w' (s ++ sent.take n) ∧ d'.symbols = (sent.drop n).map .inl ++ rest) ∧
        (sent.length < n → ∀ (d : Conn) (err : Failure) (rest : List Sym),
          d.symbols = sent.map .inl ++ .inr err :: rest →
          ∃ k m d' w', pumpAll (sourceByLength wstrerror) snk fuel (((n : ℤ), d), w) =
              .ok (⟨false, some (socketStrerror wstrerror err.1)⟩, (m, d'), w') ∧ Q w' (s ++ sent.take k)) := by
  have hroom' : Steady c (cs.flatten.length + 0) := hroom
  obtain ⟨t', c', hpump, hwire, -⟩ := pumpAll_sinkKeepOpen hsrc hF hroom'
  refine ⟨t', c', _, hpump, hwire, rfl, fun n fuel hfuel => ⟨?_, ?_⟩⟩
  · intro hn d rest h
    have htakelen : (cs.flatten.take n).length = n := by
      rw [List.length_take]
      omega
    have hsplit : d.symbols = (cs.flatten.take n).map .inl ++ ((cs.flatten.drop n).map .inl ++ rest) := by
      rw [← List.append_assoc, ← List.map_append, List.take_append_drop]
      exact h
    have hreceive : ∃ m d' w', pumpAll (sourceByLength wstrerror) snk fuel
        ((((cs.flatten.take n).length : ℤ), d), w) = .ok (⟨true, none⟩, (m, d'), w') ∧
          Q w' (s ++ cs.flatten.take n) ∧ d'.symbols = (cs.flatten.drop n).map .inl ++ rest :=
      pumpAll_sourceByLength wstrerror counts_int hsnk rfl (by omega) hw hsplit
    rw [htakelen] at hreceive
    exact hreceive
  · intro hn d err rest h
    exact pumpAll_sourceByLength_cut counts_int hsnk hn rfl hfuel hw h

theorem length_delivered_sample :
    ∃ t' c' sent, pumpAll (chunkSource none) (sinkKeepOpen fun _ => []) 3
        ([bytes "ab", bytes "c"], takingConn 3) = .ok (⟨true, none⟩, t', c') ∧
      c'.wire = [] ++ sent ∧ sent = [bytes "ab", bytes "c"].flatten ∧
      ∀ (n fuel : ℕ), sent.length + 1 ≤ fuel →
        (n ≤ sent.length → ∀ (d : Conn) (rest : List Sym), d.symbols = sent.map .inl ++ rest →
          ∃ m d' w', pumpAll (sourceByLength fun _ => []) sinkTable fuel (((n : ℤ), d), []) =
              .ok (⟨true, none⟩, (m, d'), w') ∧
            w'.flatten = [] ++ sent.take n ∧ d'.symbols = (sent.drop n).map .inl ++ rest) ∧
        (sent.length < n → ∀ (d : Conn) (err : Failure) (rest : List Sym),
          d.symbols = sent.map .inl ++ .inr err :: rest →
          ∃ k m d' w', pumpAll (sourceByLength fun _ => []) sinkTable fuel (((n : ℤ), d), []) =
              .ok (⟨false, some (socketStrerror (fun _ => []) err.1)⟩, (m, d'), w') ∧
            w'.flatten = [] ++ sent.take k) :=
  length_delivered sinkTable_takes (chunkSource_ends none _) (by decide) (takingConn_steady 3) rfl

end ByLength

end LuaTT.Http
