import LuaTT.Socket.WireText

/-! Mail and line ends. `smtp.lua` sends a message through `mime.stuff` and ends it with a line that has
nothing but a dot; `mime.normalize` makes one kind of line break out of the four there are. -/
namespace LuaTT.Mime
open Lua Ltn12 Streaming Transducer
set_option autoImplicit false

/-! ## `DATA` -/

/-- The line that ends a message. -/
def endOfData : Bytes := [13, 10, 46, 13, 10]

/-- Two after CRLF, one after CR. -/
def lineState (state : ℕ) (c : UInt8) : ℕ := if c = 13 then 1 else if c = 10 ∧ state = 1 then 2 else 0

/-- What a mail server reads: the message up to the line that is a dot, without the dots that begin other
lines, and what follows. -/
def serverData : ℕ → Bytes → Option (Bytes × Bytes)
  | _, [] => none
  | state, c :: s =>
    if state = 2 ∧ c = 46 then
      if CRLF <+: s then some ([], s.drop 2) else serverData 0 s
    else (serverData (lineState state c) s).map fun r => (c :: r.1, r.2)

section Server
variable {state : ℕ} {c : UInt8}

theorem serverData_byte (h : ¬(state = 2 ∧ c = 46)) (s : Bytes) :
    serverData state (c :: s) = (serverData (lineState state c) s).map fun r => (c :: r.1, r.2) := by
  rw [serverData, if_neg h]

theorem serverData_stuffed (s : Bytes) :
    serverData 2 (46 :: 46 :: s) = (serverData 0 s).map fun r => (46 :: r.1, r.2) := by
  have hbreak : ¬CRLF <+: (46 :: s) := by simp [CRLF]
  rw [serverData, if_pos ⟨rfl, rfl⟩, if_neg hbreak, serverData_byte (by decide)]
  rfl

theorem serverData_end (state : ℕ) (rest : Bytes) :
    serverData state (endOfData ++ rest) = some (CRLF, rest) := by
  have hbreak : CRLF <+: 13 :: 10 :: rest := ⟨rest, rfl⟩
  show serverData state (13 :: 10 :: 46 :: 13 :: 10 :: rest) = some ([13, 10], rest)
  rw [serverData_byte (by simp), serverData_byte (by simp [lineState]), serverData,
    if_pos ⟨by simp [lineState], rfl⟩, if_pos hbreak]
  rfl

theorem dot_state (c : UInt8) (state : ℕ) : (dot c state).1 = lineState state c := by
  unfold dot lineState
  by_cases h13 : c = 13
  · simp [h13]
  by_cases h10 : c = 10
  · simp [h10]
  · simp only [h13, h10, if_false, false_and]
    split_ifs <;> rfl

theorem dot_bytes (c : UInt8) (state : ℕ) :
    (dot c state).2 = if state = 2 ∧ c = 46 then [46, 46] else [c] := by
  unfold dot
  by_cases h46 : c = 46
  · subst h46
    simp
  · simp only [h46, if_false, and_false]
    split_ifs <;> rfl

/-- The server has read the data, and goes on from where the filter is. -/
theorem serverData_feed (s tail : Bytes) (state : ℕ) :
    serverData state ((dotMachine.feed state s).2 ++ tail) =
      (serverData (dotMachine.feed state s).1 tail).map fun r => (s ++ r.1, r.2) := by
  induction s generalizing state with
  | nil =>
    show serverData state tail = _
    rw [feed_nil]
    cases serverData state tail <;> rfl
  | cons c s ih =>
    have hstep : dotMachine.step state c = dot c state := rfl
    rw [feed_cons, hstep, dot_bytes, dot_state, List.append_assoc]
    split_ifs with h
    · obtain ⟨rfl, rfl⟩ := h
      have hnext : lineState 2 46 = 0 := rfl
      rw [List.cons_append, List.cons_append, List.nil_append, serverData_stuffed, hnext, ih,
        Option.map_map]
      rfl
    · rw [List.cons_append, List.nil_append, serverData_byte h, ih, Option.map_map]
      rfl

end Server

/-! ## The client -/

/-- What `smtp.lua` uses of a connection of `tp.lua`; `check` reads a reply and looks at its code. -/
structure Tp (ω : Type) where
  send : Bytes → ω → Ret × ω
  check : Bytes → ω → Ret × ω
  close : ω → ω

/-- What `try` has raised, if anything, and the connection afterwards. -/
abbrev Attempt (ω : Type) := Except (Option Bytes) Unit × ω

section Client
variable {τ ω : Type} (tp : Tp ω)

/-- `self.try`, for the call that it is given and what comes after it. -/
def smtpTry (call : ω → Ret × ω) (next : ω → Except Stop (Attempt ω)) :
    ω → Except Stop (Attempt ω) := fun w =>
  let (r, w) := call w
  if r.ok then next w else .ok (.error r.err, tp.close w)

/-- `command` without an argument. -/
def command (cmd : Bytes) : ω → Ret × ω := tp.send (cmd ++ CRLF)

/-- `socket.sinkt["keep-open"]`. -/
def sinkKeepOpen : Sink ω := fun chunk _ w =>
  match chunk with
  | some c => .ok (tp.send c w)
  | none => .ok (⟨true, none⟩, w)

/-- `metat.__index:data`. -/
def data (src : Source τ) (fuel : ℕ) (t : τ) : ω → Except Stop (Attempt ω) :=
  smtpTry tp (command tp (bytes "DATA")) <| smtpTry tp (tp.check (bytes "3..")) fun w => do
    let (ret, _, w) ← pumpAll src (sinkKeepOpen tp) fuel (t, w)
    smtpTry tp (fun w => (ret, w)) (smtpTry tp (tp.send endOfData)
      (smtpTry tp (tp.check (bytes "2..")) fun w => .ok (.ok (), w))) w

/-- The connection takes what is sent, and the server agrees; `sent` is what has gone out. -/
structure Willing (sent : ω → Bytes) : Prop where
  send : ∀ s w, (tp.send s w).1 = ⟨true, none⟩ ∧ sent (tp.send s w).2 = sent w ++ s
  check : ∀ s w, (tp.check s w).1 = ⟨true, none⟩ ∧ sent (tp.check s w).2 = sent w
  close : ∀ w, sent (tp.close w) = sent w

variable {tp} {sent : ω → Bytes}

theorem Willing.takes (h : Willing tp sent) (w₀ : ω) :
    Takes (sinkKeepOpen tp) (fun w s => sent w = sent w₀ ++ s) (fun w s => sent w = sent w₀ ++ s) where
  some := by
    intro w s hw c err
    obtain ⟨hok, hsent⟩ := h.send c w
    refine ⟨(tp.send c w).2, ?_, by rw [hsent, hw, List.append_assoc]⟩
    rw [← hok]
    rfl
  none := by
    intro w s hw err
    exact ⟨w, rfl, hw⟩

theorem smtpTry_ok {call : ω → Ret × ω} {w : ω} (h : (call w).1 = ⟨true, none⟩)
    (next : ω → Except Stop (Attempt ω)) : smtpTry tp call next w = next (call w).2 := by
  simp only [smtpTry, h, if_true]

/-- The message goes out behind the command, and then either its end or the error of its source. -/
theorem data_pump (h : Willing tp sent) {src : Source τ} {e : Option Bytes} {t : τ} {cs : List Bytes}
    (hsrc : Ends src e t cs) {fuel : ℕ} (hfuel : cs.length + 3 ≤ fuel) (w : ω) :
    ∃ w' part, sent w' = sent w ++ (bytes "DATA" ++ CRLF) ++ part ∧
      part = (dotMachine.feed 2 cs.flatten).2 ∧
      data tp (sourceChain fuel src stuff) fuel (.start t 2) w =
        smtpTry tp (fun w => (⟨e.isNone, e⟩, w)) (smtpTry tp (tp.send endOfData)
          (smtpTry tp (tp.check (bytes "2..")) fun w => .ok (.ok (), w))) w' := by
  obtain ⟨ds, hds, hlen, hflat⟩ := sourceChain_ends stuff_realises hsrc (F := fuel) (by omega)
    (s := 2) (p := 2) rfl
  have hend : ending dotMachine e (dotMachine.feed 2 cs.flatten).1 = [] := by
    unfold ending
    split_ifs <;> rfl
  obtain ⟨hcommand, hsent1⟩ := h.send (bytes "DATA" ++ CRLF) w
  obtain ⟨hcheck, hsent2⟩ := h.check (bytes "3..") (tp.send (bytes "DATA" ++ CRLF) w).2
  obtain ⟨t', w', hpump, hsent3⟩ := pumpAll_takes hds
    (h.takes (tp.check (bytes "3..") (tp.send (bytes "DATA" ++ CRLF) w).2).2) (F := fuel) (by omega)
    (s := []) (List.append_nil _).symm
  refine ⟨w', (dotMachine.feed 2 cs.flatten).2, ?_, rfl, ?_⟩
  · rw [hsent3, hsent2, hsent1, List.nil_append, hflat, hend, List.append_nil]
  · unfold data
    have hfirst : (command tp (bytes "DATA") w).1 = ⟨true, none⟩ := hcommand
    rw [smtpTry_ok hfirst]
    show smtpTry tp (tp.check (bytes "3..")) _ (tp.send (bytes "DATA" ++ CRLF) w).2 = _
    rw [smtpTry_ok hcheck, hpump]
    rfl

end Client

/-- A connection to a server that agrees with everything. -/
def patientServer : Tp Bytes where
  send s w := (⟨true, none⟩, w ++ s)
  check _ w := (⟨true, none⟩, w)
  close w := w

theorem patientServer_willing : Willing patientServer id where
  send _ _ := ⟨rfl, rfl⟩
  check _ _ := ⟨rfl, rfl⟩
  close _ := rfl

section
variable {τ ω : Type} {tp : Tp ω} {sent : ω → Bytes}

/-- What the server takes for the message is the message, with the break of its last line, whatever it
says, and what the client sends afterwards is not part of it. -/
theorem data_delivered (h : Willing tp sent) {src : Source τ} {t : τ} {cs : List Bytes}
    (hsrc : Yields src t cs) {fuel : ℕ} (hfuel : cs.length + 3 ≤ fuel) (w : ω) :
    ∃ w' mail, data tp (sourceChain fuel src stuff) fuel (.start t 2) w = .ok (.ok (), w') ∧
      sent w' = sent w ++ (bytes "DATA" ++ CRLF) ++ mail ∧
      ∀ rest, serverData 2 (mail ++ rest) = some (cs.flatten ++ CRLF, rest) := by
  obtain ⟨w1, part, hsent1, hpart, hdata⟩ := data_pump h hsrc hfuel w
  obtain ⟨hend, hsent2⟩ := h.send endOfData w1
  obtain ⟨hcheck, hsent3⟩ := h.check (bytes "2..") (tp.send endOfData w1).2
  refine ⟨(tp.check (bytes "2..") (tp.send endOfData w1).2).2, part ++ endOfData, ?_, ?_, ?_⟩
  · rw [hdata, smtpTry_ok rfl, smtpTry_ok hend, smtpTry_ok hcheck]
  · rw [hsent3, hsent2, hsent1, List.append_assoc]
  · intro rest
    rw [List.append_assoc, hpart, serverData_feed, serverData_end]
    rfl

theorem data_delivered_sample :
    ∃ w' mail, data patientServer (sourceChain 4 (sourceString (bytes "a\r\n.\r\nb")) stuff) 4
        (.start 0 2) [] = .ok (.ok (), w') ∧
      id w' = id [] ++ (bytes "DATA" ++ CRLF) ++ mail ∧
      ∀ rest, serverData 2 (mail ++ rest) = some ([bytes "a\r\n.\r\nb"].flatten ++ CRLF, rest) :=
  data_delivered patientServer_willing (.cons rfl (.nil rfl)) (by decide) []

/-- A message whose source fails is not taken for one: the error is raised, the connection closed, and the
server is left waiting for the end. -/
theorem data_incomplete (h : Willing tp sent) {src : Source τ} {e : Bytes} {t : τ} {cs : List Bytes}
    (hsrc : Ends src (some e) t cs) {fuel : ℕ} (hfuel : cs.length + 3 ≤ fuel) (w : ω) :
    ∃ w' part, data tp (sourceChain fuel src stuff) fuel (.start t 2) w =
        .ok (.error (some e), tp.close w') ∧
      sent (tp.close w') = sent w ++ (bytes "DATA" ++ CRLF) ++ part ∧ serverData 2 part = none := by
  obtain ⟨w', part, hsent, hpart, hdata⟩ := data_pump h hsrc hfuel w
  refine ⟨w', part, hdata, (h.close w').trans hsent, ?_⟩
  have hfeed := serverData_feed cs.flatten [] 2
  rw [List.append_nil, ← hpart] at hfeed
  rw [hfeed]
  rfl

/-- A source that fails after a line. -/
def brokenSource : Source Bool := fun t =>
  .ok (if t then ⟨some (bytes "a\r\n"), none⟩ else ⟨none, some (bytes "closed")⟩, false)

theorem data_incomplete_sample :
    ∃ w' part, data patientServer (sourceChain 4 brokenSource stuff) 4 (.start true 2) [] =
        .ok (.error (some (bytes "closed")), patientServer.close w') ∧
      id (patientServer.close w') = id [] ++ (bytes "DATA" ++ CRLF) ++ part ∧ serverData 2 part = none :=
  have h : Ends brokenSource (some (bytes "closed")) true [bytes "a\r\n"] := .cons rfl (.nil rfl)
  data_incomplete patientServer_willing h (by decide) []

end

/-! ## Line ends -/

section Eol

/-- The four conventions. -/
inductive LineBreak : Bytes → Prop
  | lf : LineBreak [10]
  | cr : LineBreak [13]
  | crlf : LineBreak [13, 10]
  | lfcr : LineBreak [10, 13]

/-- What may be left over from the break before: nothing, or a break of one byte. -/
def Between (t : Bytes) (last : UInt8) : Prop := last = 0 ∨ t = [last]

theorem eol_unbroken (marker : Bytes) {l : Bytes} (hl : Unbroken l) (last : UInt8) :
    ((eolMachine marker).feed last l).2 = l ∧
      ((eolMachine marker).feed last l).1 = if l = [] then last else 0 := by
  induction l generalizing last with
  | nil => exact ⟨rfl, rfl⟩
  | cons c l ih =>
    have hc : eolcandidate c = false := by simpa [eolcandidate] using hl c List.mem_cons_self
    obtain ⟨htext, hlast⟩ := ih (fun d hd => hl d (List.mem_cons_of_mem c hd)) 0
    have hstep : (eolMachine marker).step last c = (0, [c]) := by simp [eolMachine, eolprocess, hc]
    rw [feed_cons, hstep, htext, hlast]
    exact ⟨rfl, by simp⟩

theorem eol_break (marker : Bytes) {t : Bytes} (ht : LineBreak t) {last : UInt8} (hlast : Between t last) :
    ((eolMachine marker).feed last t).2 = marker ∧ Between t ((eolMachine marker).feed last t).1 := by
  cases ht with
  | lf | cr =>
    obtain rfl | h := hlast
    · exact ⟨by simp [feed_cons, eolMachine, eolprocess, eolcandidate], .inr rfl⟩
    · cases h
      exact ⟨by simp [feed_cons, eolMachine, eolprocess, eolcandidate], .inl rfl⟩
  | crlf | lfcr =>
    obtain rfl | h := hlast
    · exact ⟨by simp [feed_cons, eolMachine, eolprocess, eolcandidate], .inl rfl⟩
    · cases h

theorem eol_lines (marker : Bytes) {t : Bytes} (ht : LineBreak t) (lines : List Bytes) (hlines : ∀ l ∈ lines, Unbroken l)
    {last : UInt8} (hlast : Between t last) :
    ((eolMachine marker).feed last (lines.flatMap (· ++ t))).2 = lines.flatMap (· ++ marker) := by
  induction lines generalizing last with
  | nil => rfl
  | cons l lines ih =>
    obtain ⟨htext, hafter⟩ := eol_unbroken marker (hlines l List.mem_cons_self) last
    have hbetween : Between t ((eolMachine marker).feed last l).1 := by
      rw [hafter]
      split_ifs
      · exact hlast
      · exact .inl rfl
    obtain ⟨hbreak, hnext⟩ := eol_break marker ht hbetween
    have hrest := ih (fun l' hl' => hlines l' (List.mem_cons_of_mem l hl')) hnext
    rw [List.flatMap_cons, List.flatMap_cons, feed_append, feed_append]
    simp only [htext, hbreak, hrest]

/-- A text whose lines end in one way comes out of `normalize` with its lines ended in the other, however it
has been cut into chunks. -/
theorem normalize_lines {τ : Type} {src : Source τ} {s : τ} {cs : List Bytes} (hsrc : Yields src s cs)
    {t : Bytes} (ht : LineBreak t) (lines : List Bytes) (last : Bytes)
    (hlines : ∀ l ∈ last :: lines, Unbroken l) (htext : cs.flatten = lines.flatMap (· ++ t) ++ last)
    (marker : Option Bytes) {fuel : ℕ} (hfuel : cs.length + 2 ≤ fuel) :
    ∃ ds, Yields (sourceChain fuel src (normalize marker)) (.start s 0) ds ∧
      ds.flatten = lines.flatMap (· ++ marker.elim CRLF cstring) ++ last := by
  obtain ⟨ds, hds, -, hflat⟩ := sourceChain_yields (normalize_realises marker) hsrc hfuel (s := 0) rfl
  have hfirst := eol_lines (marker.elim CRLF cstring) ht lines
    (fun l hl => hlines l (List.mem_cons_of_mem last hl)) (.inl (Eq.refl (0 : UInt8)))
  have hsecond (last' : UInt8) := (eol_unbroken (marker.elim CRLF cstring)
    (hlines last List.mem_cons_self) last').1
  refine ⟨ds, hds, ?_⟩
  rw [hflat, htext, run_eq, feed_append]
  show (_ ++ _) ++ [] = _
  rw [List.append_nil, hsecond]
  exact congrArg (· ++ last) hfirst

theorem normalize_lines_sample :
    ∃ ds, Yields (sourceChain 4 (sourceString (bytes "a\n\nb")) (normalize none)) (.start 0 0) ds ∧
      ds.flatten = [bytes "a", []].flatMap (· ++ CRLF) ++ bytes "b" :=
  have h : Yields (sourceString (bytes "a\n\nb")) 0 [bytes "a\n\nb"] := .cons rfl (.nil rfl)
  normalize_lines h .lf [bytes "a", []] (bytes "b")
    (by decide +kernel) rfl none (by decide)

end Eol
end LuaTT.Mime
