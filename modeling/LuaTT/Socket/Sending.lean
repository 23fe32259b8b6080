import LuaTT.Socket.Receiving

/-! What `send` puts on the wire: the bytes it has been given, each once and in their order, however the
transport takes them. The index it returns says how many, so that the rest can be sent later. -/
namespace LuaTT.Buffer
open Lua
set_option autoImplicit false

/-! ## `sendraw` -/

def Sent.isTakes : Sent → Bool
  | .takes .. => true
  | .fail _ => false

/-- The transport goes on to take bytes, and times out at worst. -/
structure Open (out : List Sent) (count : ℕ) : Prop where
  room : count ≤ out.countP Sent.isTakes
  calm : ∀ err : Failure, Sent.fail err ∈ out → err.1 = IO_TIMEOUT

/-- What is left of a transport when so many bytes have been taken at most. -/
theorem Open.rest {out rest : List Sent} {count taken : ℕ} (h : Open (out ++ rest) count)
    (htaken : out.countP Sent.isTakes ≤ taken) : Open rest (count - taken) where
  room := by
    have hroom := h.room
    rw [List.countP_append] at hroom
    omega
  calm err herr := h.calm err (List.mem_append_right out herr)

/-- From the byte `total` on, `total'` have gone out. -/
structure Sends (data : Bytes) (total total' : ℕ) (c c' : Conn) (err : ℤ) : Prop where
  le : total ≤ total'
  bound : total' ≤ data.length
  wire : c'.wire = c.wire ++ (data.drop total).take (total' - total)
  done : err = IO_DONE → total' = data.length
  /-- The results of `send` that have been used up; one for an error. -/
  used : ∃ out, c.outgoing = out ++ c'.outgoing ∧ (err ≠ IO_DONE → ∃ f : Failure, f.1 = err ∧ .fail f ∈ out) ∧
    out.countP Sent.isTakes ≤ total' - total

theorem take_append_take (data : Bytes) {i j k : ℕ} (hij : i ≤ j) (hjk : j ≤ k) :
    (data.drop i).take (j - i) ++ (data.drop j).take (k - j) = (data.drop i).take (k - i) := by
  have hj : data.drop j = (data.drop i).drop (j - i) := by
    rw [List.drop_drop]
    congr 1
    omega
  have hk : k - i = (j - i) + (k - j) := by omega
  rw [hj, hk, List.take_add]

theorem sendraw_error {data : Bytes} {fuel total : ℕ} {err : ℤ} (herr : err ≠ IO_DONE) (c : Conn) :
    sendraw data (fuel + 1) total err c = some (err, total, { c with sent := c.sent + .ofNat total }) := by
  rw [sendraw, if_neg fun hmore => herr hmore.2]

/-- One `io->send` that takes something, and what goes out after it. -/
theorem Sends.step {data : Bytes} {total count total' most : ℕ} {hmost : 0 < most} {c c' : Conn} {err : ℤ}
    {rest : List Sent} (hout : c.outgoing = .takes most hmost :: rest) (hcount : 0 < count)
    (h : Sends data (total + count) total'
      { c with outgoing := rest, wire := c.wire ++ (data.drop total).take count } c' err) :
    Sends data total total' c c' err where
  le := by have := h.le; omega
  bound := h.bound
  wire := by
    have hsplit := take_append_take data (Nat.le_add_right total count) h.le
    rw [Nat.add_sub_cancel_left] at hsplit
    rw [h.wire, List.append_assoc, hsplit]
  done := h.done
  used := by
    obtain ⟨out, hrest, hfail, hroom⟩ := h.used
    have hle := h.le
    refine ⟨.takes most hmost :: out, ?_, ?_, ?_⟩
    · rw [hout, List.cons_append]
      exact congrArg (_ :: ·) hrest
    · intro hne
      obtain ⟨f, hf, hmem⟩ := hfail hne
      exact ⟨f, hf, List.mem_cons_of_mem _ hmem⟩
    · rw [List.countP_cons_of_pos rfl]
      omega

theorem sendraw_sends {data : Bytes} {fuel total : ℕ} {c c' : Conn} {err : ℤ} {total' : ℕ}
    (htotal : total ≤ data.length) (h : sendraw data fuel total IO_DONE c = some (err, total', c')) :
    Sends data total total' c c' err := by
  induction fuel generalizing total c with
  | zero => cases h
  | succ fuel ih =>
    unfold sendraw at h
    by_cases hmore : total < data.length
    · rw [if_pos ⟨hmore, rfl⟩] at h
      match hout : c.outgoing with
      | [] =>
        simp only [hout] at h
        cases h
      | .takes most hmost :: rest =>
        simp only [hout] at h
        refine Sends.step hout ?_ (ih ?_ h)
        · have hstep : STEPSIZE = 8192 := rfl
          split_ifs <;> omega
        · split_ifs <;> omega
      | .fail f :: rest =>
        simp only [hout] at h
        cases fuel with
        | zero => cases h
        | succ fuel =>
          rw [sendraw_error f.2] at h
          cases h
          exact ⟨le_refl _, htotal, by simp, fun hdone => (f.2 hdone).elim, [.fail f], hout,
            fun _ => ⟨f, rfl, List.mem_cons_self⟩, by simp [Sent.isTakes]⟩
    · rw [if_neg fun hm => hmore hm.1] at h
      cases h
      exact ⟨le_refl _, htotal, by simp, fun _ => by omega, [], rfl, fun hne => (hne rfl).elim, by simp⟩

/-- With a transport that is open the call returns. -/
theorem sendraw_returns {data : Bytes} {fuel total : ℕ} {c : Conn} (hopen : Open c.outgoing (data.length - total))
    (hfuel : c.outgoing.length < fuel) : (sendraw data fuel total IO_DONE c).isSome := by
  induction fuel generalizing total c with
  | zero => omega
  | succ fuel ih =>
    unfold sendraw
    by_cases hmore : total < data.length
    · rw [if_pos ⟨hmore, rfl⟩]
      match hout : c.outgoing with
      | [] =>
        have hroom := hopen.room
        rw [hout, List.countP_nil] at hroom
        omega
      | .takes most hmost :: rest =>
        have hroom := hopen.room
        rw [hout, List.countP_cons_of_pos rfl] at hroom
        rw [hout, List.length_cons] at hfuel
        apply ih
        · refine ⟨?_, fun err herr => hopen.calm err (hout ▸ List.mem_cons_of_mem _ herr)⟩
          show _ ≤ rest.countP Sent.isTakes
          have hstep : STEPSIZE = 8192 := rfl
          split_ifs <;> omega
        · show rest.length < fuel
          omega
      | .fail f :: rest =>
        rw [hout, List.length_cons] at hfuel
        obtain ⟨fuel, rfl⟩ : ∃ k, fuel = k + 1 := ⟨fuel - 1, by omega⟩
        show (sendraw data (fuel + 1) total f.1 _).isSome
        rw [sendraw_error f.2]
        rfl
    · rw [if_neg fun hm => hmore hm.1]
      rfl

/-! ## `send` -/

theorem sendStart_pos (size : ℤ) (start : Option ℤ) : 1 ≤ sendStart size start := by
  unfold sendStart
  dsimp only
  split_ifs <;> omega

theorem sendStart_some {size i : ℤ} (hi : 1 ≤ i) : sendStart size (some i) = i := by
  have hneg : ¬i < 0 := by omega
  have hlow : ¬i < 1 := by omega
  simp only [sendStart, Option.getD_some, if_neg hneg, if_neg hlow]

theorem sendEnd_le (size : ℤ) (last : Option ℤ) : sendEnd size last ≤ size := by
  unfold sendEnd
  dsimp only
  split_ifs <;> omega

section Slice
variable {data : Bytes} {a k z : ℤ}

theorem slice_length (ha : 1 ≤ a) (haz : a ≤ z) (hz : z ≤ data.length) :
    (slice data a z).length = (z - a + 1).toNat := by
  rw [slice, List.length_take, List.length_drop]
  omega

theorem slice_empty (data : Bytes) (a : ℤ) : slice data a (a - 1) = [] := by
  simp [slice]

theorem slice_take {count : ℕ} (hcount : a + count - 1 ≤ z) :
    (slice data a z).take count = slice data a (a + count - 1) := by
  rw [slice, slice, List.take_take]
  congr 1
  omega

/-- A slice in two parts. -/
theorem slice_append (ha : 1 ≤ a) (hak : a - 1 ≤ k) (hkz : k ≤ z) :
    slice data a k ++ slice data (k + 1) z = slice data a z := by
  have h := take_append_take data (i := (a - 1).toNat) (j := k.toNat) (k := z.toNat) (by omega) (by omega)
  have hk : k + 1 - 1 = k := by omega
  rw [slice, slice, slice, hk]
  have h1 : (k - a + 1).toNat = k.toNat - (a - 1).toNat := by omega
  have h2 : (z - (k + 1) + 1).toNat = z.toNat - k.toNat := by omega
  have h3 : (z - a + 1).toNat = z.toNat - (a - 1).toNat := by omega
  rw [h1, h2, h3, h]

end Slice

/-- The bytes from `a` to `last` of those up to `z` have gone out. -/
structure Goes (data : Bytes) (a z : ℤ) (c c' : Conn) (err last : ℤ) : Prop where
  low : a - 1 ≤ last
  high : last ≤ max z (a - 1)
  wire : c'.wire = c.wire ++ slice data a last
  done : err = IO_DONE → last = max z (a - 1)
  used : ∃ out, c.outgoing = out ++ c'.outgoing ∧ (err ≠ IO_DONE → ∃ f : Failure, f.1 = err ∧ .fail f ∈ out) ∧
    (out.countP Sent.isTakes : ℤ) ≤ last - (a - 1)

theorem send_goes {data : Bytes} {start stop : Option ℤ} {c c' : Conn} {err last : ℤ}
    (h : send data start stop c = some (err, last, c')) :
    Goes data (sendStart data.length start) (sendEnd data.length stop) c c' err last := by
  have ha := sendStart_pos data.length start
  have hz := sendEnd_le data.length stop
  unfold send at h
  dsimp only at h
  generalize sendStart data.length start = a at *
  generalize sendEnd data.length stop = z at *
  split_ifs at h with haz
  · cases hraw : sendraw (slice data a z) (c.outgoing.length + 1) 0 IO_DONE c with
    | none =>
      rw [hraw] at h
      cases h
    | some r =>
      obtain ⟨err', sent, c''⟩ := r
      rw [hraw] at h
      obtain ⟨rfl, rfl, rfl⟩ : err' = err ∧ (sent : ℤ) + a - 1 = last ∧ c'' = c' := by
        cases h
        exact ⟨rfl, rfl, rfl⟩
      have hs : Sends (slice data a z) 0 sent c c'' err' := sendraw_sends (Nat.zero_le _) hraw
      have hlen := slice_length ha haz hz
      have hbound : sent ≤ (slice data a z).length := hs.bound
      refine ⟨by omega, by omega, ?_, ?_, ?_⟩
      · have hwithin : a + sent - 1 ≤ z := by omega
        have htake : (slice data a z).take sent = slice data a (a + sent - 1) := slice_take hwithin
        have hlast : (sent : ℤ) + a - 1 = a + sent - 1 := by omega
        rw [hs.wire, List.drop_zero, Nat.sub_zero, htake, hlast]
      · intro hdone
        have := hs.done hdone
        omega
      · obtain ⟨out, hout, hfail, hroom⟩ := hs.used
        exact ⟨out, hout, hfail, by omega⟩
  · cases h
    refine ⟨by omega, by omega, ?_, fun _ => by omega, [], rfl, fun hne => (hne rfl).elim, by simp⟩
    rw [slice_empty, List.append_nil]

/-- The call returns when the transport is open for what it is given. -/
theorem send_returns {data : Bytes} {start stop : Option ℤ} {c : Conn} {count : ℕ}
    (hopen : Open c.outgoing count)
    (hcount : sendEnd data.length stop - sendStart data.length start + 1 ≤ count) :
    (send data start stop c).isSome := by
  have ha := sendStart_pos data.length start
  have hz := sendEnd_le data.length stop
  unfold send
  dsimp only
  generalize sendStart data.length start = a at *
  generalize sendEnd data.length stop = z at *
  split_ifs with haz
  · have hlen := slice_length ha haz hz
    have hroom := hopen.room
    have hraw : (sendraw (slice data a z) (c.outgoing.length + 1) 0 IO_DONE c).isSome :=
      sendraw_returns ⟨by omega, hopen.calm⟩ (Nat.lt_succ_self _)
    obtain ⟨r, hr⟩ := Option.isSome_iff_exists.mp hraw
    rw [hr]
    rfl
  · rfl

/-! ## After a timeout -/

/-- `send` again from the byte after the last one, as long as it times out. -/
def sendOn (data : Bytes) (stop : Option ℤ) : ℕ → Option ℤ → Conn → Option (ℤ × ℤ × Conn)
  | 0, _, _ => none
  | fuel + 1, start, c => do
    let (err, last, c) ← send data start stop c
    if err = IO_TIMEOUT then sendOn data stop fuel (some (last + 1)) c else some (err, last, c)

theorem sendOn_again {data : Bytes} {start stop : Option ℤ} {c c' : Conn} {last : ℤ}
    (h : send data start stop c = some (IO_TIMEOUT, last, c')) (fuel : ℕ) :
    sendOn data stop (fuel + 1) start c = sendOn data stop fuel (some (last + 1)) c' := by
  rw [sendOn, h]
  rfl

theorem sendOn_last {data : Bytes} {start stop : Option ℤ} {c c' : Conn} {err last : ℤ}
    (h : send data start stop c = some (err, last, c')) (herr : err ≠ IO_TIMEOUT) (fuel : ℕ) :
    sendOn data stop (fuel + 1) start c = some (err, last, c') := by
  rw [sendOn, h]
  exact if_neg herr

/-- However often it times out, what goes out is the bytes up to the index that is returned. -/
theorem sendOn_goes {data : Bytes} {start stop : Option ℤ} {fuel : ℕ} {c c' : Conn} {err last : ℤ}
    (h : sendOn data stop fuel start c = some (err, last, c')) :
    c'.wire = c.wire ++ slice data (sendStart data.length start) last ∧
      sendStart data.length start - 1 ≤ last ∧
      last ≤ max (sendEnd data.length stop) (sendStart data.length start - 1) ∧
      (err = IO_DONE → last = max (sendEnd data.length stop) (sendStart data.length start - 1)) := by
  induction fuel generalizing start c with
  | zero => cases h
  | succ fuel ih =>
    cases hsend : send data start stop c with
    | none =>
      rw [sendOn, hsend] at h
      cases h
    | some r =>
      obtain ⟨err', last', c''⟩ := r
      have hgoes := send_goes hsend
      have ha := sendStart_pos data.length start
      have hlow := hgoes.low
      have hhigh := hgoes.high
      by_cases htimeout : err' = IO_TIMEOUT
      · subst htimeout
        rw [sendOn_again hsend] at h
        obtain ⟨hwire, hlow', hhigh', hdone⟩ := ih h
        rw [sendStart_some (by omega)] at hwire hlow' hhigh' hdone
        have hwithin : last' ≤ last := by omega
        have hsplit : slice data (sendStart data.length start) last' ++ slice data (last' + 1) last =
            slice data (sendStart data.length start) last := slice_append ha hlow hwithin
        refine ⟨?_, by omega, by omega, fun herr => by have := hdone herr; omega⟩
        rw [hwire, hgoes.wire, List.append_assoc, hsplit]
      · rw [sendOn_last hsend htimeout] at h
        cases h
        exact ⟨hgoes.wire, hlow, hhigh, hgoes.done⟩

/-- On a transport that goes on to take bytes everything goes out in the end. -/
theorem sendOn_done {data : Bytes} {start stop : Option ℤ} {fuel count : ℕ} {c : Conn}
    (hopen : Open c.outgoing count)
    (hcount : sendEnd data.length stop - sendStart data.length start + 1 ≤ count)
    (hfuel : (c.outgoing.countP fun s => !s.isTakes) < fuel) :
    ∃ last c', sendOn data stop fuel start c = some (IO_DONE, last, c') ∧
      ∃ out, c.outgoing = out ++ c'.outgoing ∧
        (out.countP Sent.isTakes : ℤ) ≤ last - (sendStart data.length start - 1) := by
  induction fuel generalizing start count c with
  | zero => omega
  | succ fuel ih =>
    obtain ⟨⟨err, last, c'⟩, hsend⟩ := Option.isSome_iff_exists.mp (send_returns hopen hcount)
    have hgoes := send_goes hsend
    have ha := sendStart_pos data.length start
    obtain ⟨out, hout, hfail, hroom⟩ := hgoes.used
    have hlow := hgoes.low
    by_cases hdone : err = IO_DONE
    · subst hdone
      exact ⟨last, c', sendOn_last hsend (by decide) fuel, out, hout, hroom⟩
    · -- the error has used up one of the results that are no bytes
      obtain ⟨f, hf, hmem⟩ := hfail hdone
      obtain rfl : err = IO_TIMEOUT := hf ▸ hopen.calm f (hout ▸ List.mem_append_left _ hmem)
      rw [hout] at hopen hfuel
      have hrest : Open c'.outgoing (count - (last - (sendStart data.length start - 1)).toNat) :=
        hopen.rest (by omega)
      have hfewer : (c'.outgoing.countP fun s => !s.isTakes) < fuel := by
        have hone : 0 < out.countP fun s => !s.isTakes := List.countP_pos_iff.mpr ⟨_, hmem, rfl⟩
        rw [List.countP_append] at hfuel
        omega
      have hstart : sendStart data.length (some (last + 1)) = last + 1 := sendStart_some (by omega)
      have hleft : sendEnd data.length stop - sendStart data.length (some (last + 1)) + 1 ≤
          (count - (last - (sendStart data.length start - 1)).toNat : ℕ) := by
        rw [hstart]
        omega
      obtain ⟨last', c'', hrun, out', hout', hroom'⟩ := ih hrest hleft hfewer
      refine ⟨last', c'', ?_, out ++ out', by rw [hout, hout', List.append_assoc], ?_⟩
      · rw [sendOn_again hsend]
        exact hrun
      · rw [List.countP_append, Nat.cast_add]
        omega

/-- However often it times out, `sendOn` has put on the wire the bytes up to the index it returns, each once,
and all that have been asked for if there is no error; on a transport that goes on to take bytes there is
none. -/
theorem sendOn_wire (data : Bytes) (start stop : Option Long) (fuel : ℕ) (c : Conn) :
    (∀ err last c', sendOn data (stop.map (·.1)) fuel (start.map (·.1)) c = some (err, last, c') →
      c'.wire = c.wire ++ slice data (sendStart data.length (start.map (·.1))) last ∧
        (err = IO_DONE →
          last = max (sendEnd data.length (stop.map (·.1))) (sendStart data.length (start.map (·.1)) - 1))) ∧
      (Open c.outgoing data.length → (c.outgoing.countP fun s => !s.isTakes) < fuel →
        ∃ last c', sendOn data (stop.map (·.1)) fuel (start.map (·.1)) c = some (IO_DONE, last, c')) := by
  generalize start.map (·.1) = start
  generalize stop.map (·.1) = stop
  refine ⟨fun err last c' h => ?_, fun hopen hfuel => ?_⟩
  · obtain ⟨hwire, -, -, hdone⟩ := sendOn_goes h
    exact ⟨hwire, hdone⟩
  · have ha := sendStart_pos data.length start
    have hz := sendEnd_le data.length stop
    have hroom : sendEnd data.length stop - sendStart data.length start + 1 ≤ data.length := by omega
    obtain ⟨last, c', hrun, -⟩ := sendOn_done hopen hroom hfuel
    exact ⟨last, c', hrun⟩

/-! ## Lines from one end to the other -/

/-- Each line with its break, until one fails. -/
def sendLines (t : Bytes) (fuel : ℕ) : List Bytes → Conn → Option (ℤ × Conn)
  | [], c => some (IO_DONE, c)
  | l :: ls, c => do
    let (err, _, c) ← sendOn (l ++ t) none fuel none c
    if err = IO_DONE then sendLines t fuel ls c else some (err, c)

/-- As many lines as asked for, with the error of each. -/
def receiveLines (fuel : ℕ) : ℕ → Conn → Option (List (ℤ × Bytes) × Conn)
  | 0, c => some ([], c)
  | n + 1, c => do
    let (err, l, c) ← patient receive .line fuel [] c
    let (ls, c) ← receiveLines fuel n c
    some ((err, l) :: ls, c)

section Lines
variable {t : Bytes}

theorem sendStart_none (size : ℤ) : sendStart size none = 1 := rfl

theorem sendEnd_none (size : ℤ) : sendEnd size none = size := by
  simp [sendEnd]

theorem slice_whole (data : Bytes) : slice data 1 data.length = data := by
  simp [slice]

/-- One line more, when there is room for it. -/
theorem sendOn_whole {data : Bytes} {count fuel : ℕ} {c : Conn} (hopen : Open c.outgoing (data.length + count))
    (hfuel : (c.outgoing.countP fun s => !s.isTakes) < fuel) :
    ∃ last c', sendOn data none fuel none c = some (IO_DONE, last, c') ∧ c'.wire = c.wire ++ data ∧
      Open c'.outgoing count ∧ (c'.outgoing.countP fun s => !s.isTakes) < fuel := by
  have hsize : sendEnd data.length none - sendStart data.length none + 1 ≤ (data.length + count : ℕ) := by
    rw [sendEnd_none, sendStart_none]
    omega
  obtain ⟨last, c', hrun, out, hout, hroom⟩ := sendOn_done hopen hsize hfuel
  obtain ⟨hwire, -, -, hlast⟩ := sendOn_goes hrun
  have hall := hlast rfl
  rw [sendStart_none, sendEnd_none] at hall
  rw [sendStart_none] at hwire hroom
  have hend : last = data.length := by omega
  rw [hout] at hopen hfuel
  have hrest : Open c'.outgoing (data.length + count - data.length) := hopen.rest (by omega)
  rw [Nat.add_sub_cancel_left] at hrest
  rw [List.countP_append] at hfuel
  exact ⟨last, c', hrun, by rw [hwire, hend, slice_whole], hrest, by omega⟩

theorem sendLines_done {ls : List Bytes} {fuel : ℕ} {c : Conn}
    (hopen : Open c.outgoing (ls.flatMap (· ++ t)).length)
    (hfuel : (c.outgoing.countP fun s => !s.isTakes) < fuel) :
    ∃ c', sendLines t fuel ls c = some (IO_DONE, c') ∧ c'.wire = c.wire ++ ls.flatMap (· ++ t) := by
  induction ls generalizing c with
  | nil => exact ⟨c, rfl, by simp⟩
  | cons l ls ih =>
    rw [List.flatMap_cons, List.length_append] at hopen
    obtain ⟨last, c1, hrun, hwire, hopen1, hfuel1⟩ := sendOn_whole hopen hfuel
    obtain ⟨c2, hrest, hwire2⟩ := ih hopen1 hfuel1
    refine ⟨c2, ?_, by rw [hwire2, hwire, List.flatMap_cons, List.append_assoc]⟩
    unfold sendLines
    rw [hrun]
    exact hrest

theorem takeLine_line {l : Bytes} (hl : ∀ c ∈ l, inLine c) (ht : t = [10] ∨ t = [13, 10]) (b : Bytes)
    (s : List Sym) (n : UInt32) :
    ∃ m, takeLine b ((l ++ t).map .inl ++ s) n = some (IO_DONE, b ++ l, ⟨s, m⟩) := by
  induction l generalizing b n with
  | nil =>
    obtain rfl | rfl := ht
    · exact ⟨n + 1, by simp [takeLine]⟩
    · exact ⟨n + 1 + 1, by simp [takeLine]⟩
  | cons c l ih =>
    have hc : c ≠ 13 ∧ c ≠ 10 := by simpa [inLine] using hl c List.mem_cons_self
    obtain ⟨m, hm⟩ := ih (fun d hd => hl d (List.mem_cons_of_mem c hd)) (b ++ [c]) (n + 1)
    refine ⟨m, ?_⟩
    rw [List.cons_append, List.map_cons, List.cons_append, takeLine, if_neg hc.2, if_pos hc.1, hm]
    simp

/-- A call leaves an end of what there was. -/
theorem takeLine_suffix {b : Bytes} {s : List Sym} {n : UInt32} {err : ℤ} {b' : Bytes} {v' : View}
    (h : takeLine b s n = some (err, b', v')) : v'.symbols <:+ s := by
  induction s generalizing b n with
  | nil => cases h
  | cons x s ih =>
    cases x with
    | inl c =>
      rw [takeLine] at h
      split_ifs at h
      · cases h
        exact List.suffix_cons _ s
      · exact (ih h).trans (List.suffix_cons _ s)
      · exact (ih h).trans (List.suffix_cons _ s)
    | inr err =>
      cases h
      exact List.suffix_cons _ s

theorem patient_line_suffix {fuel : ℕ} {part : Bytes} {c c' : Conn} {err : ℤ} {b : Bytes}
    (h : patient receive .line fuel part c = some (err, b, c')) : c'.symbols <:+ c.symbols := by
  induction fuel generalizing part c with
  | zero => cases h
  | succ fuel ih =>
    unfold patient at h
    cases hr : receive .line part c with
    | none =>
      rw [hr] at h
      cases h
    | some r =>
      obtain ⟨err', b', c''⟩ := r
      have hseen := receive_seen .line part c
      rw [hr] at h hseen
      have hfirst : c''.symbols <:+ c.symbols := takeLine_suffix hseen.symm
      simp only [Option.bind_eq_bind, Option.bind_some] at h
      split_ifs at h
      · exact (ih h).trans hfirst
      · cases h
        exact hfirst

/-- The line a receiver has before it, whatever timeouts lie in it. -/
theorem patient_line {l : Bytes} (hl : ∀ c ∈ l, inLine c) (ht : t = [10] ∨ t = [13, 10]) {fuel : ℕ} {c : Conn}
    {rest : List Sym} (hsyms : c.view.calm.symbols = (l ++ t).map .inl ++ rest)
    (hfuel : c.symbols.countP isTimeout < fuel) :
    ∃ c', patient receive .line fuel [] c = some (IO_DONE, l, c') ∧ c'.view.calm.symbols = rest := by
  have hcalm : calmed (seen (patient receive .line fuel [] c)) = c.view.calm.receive .line [] := by
    rw [patient_seen]
    exact patient_view (show Resumes [] .line from trivial) c.view hfuel
  obtain ⟨m, hline⟩ := takeLine_line hl ht [] rest c.received
  have hview : c.view.calm.receive .line [] = some (IO_DONE, l, ⟨rest, m⟩) := by
    show takeLine [] c.view.calm.symbols c.received = _
    rw [hsyms, hline]
    rfl
  rw [hview] at hcalm
  cases hcall : patient receive .line fuel [] c with
  | none =>
    rw [hcall] at hcalm
    cases hcalm
  | some r =>
    obtain ⟨err, b, c'⟩ := r
    rw [hcall] at hcalm
    obtain ⟨rfl, rfl, hc'⟩ : err = IO_DONE ∧ b = l ∧ c'.view.calm = ⟨rest, m⟩ := by simpa [calmed] using hcalm
    exact ⟨c', rfl, by rw [hc']⟩

/-- A receiver that has these lines before it reads them, whatever timeouts lie between. -/
theorem receiveLines_read {ls : List Bytes} (hls : ∀ l ∈ ls, ∀ c ∈ l, inLine c) (ht : t = [10] ∨ t = [13, 10])
    {fuel : ℕ} {c : Conn} {rest : List Sym}
    (hsyms : c.view.calm.symbols = (ls.flatMap (· ++ t)).map .inl ++ rest)
    (hfuel : c.symbols.countP isTimeout < fuel) :
    ∃ c', receiveLines fuel ls.length c = some (ls.map (IO_DONE, ·), c') ∧
      c'.view.calm.symbols = rest := by
  induction ls generalizing c with
  | nil => exact ⟨c, rfl, hsyms⟩
  | cons l ls ih =>
    obtain ⟨hl, hls'⟩ := List.forall_mem_cons.mp hls
    rw [List.flatMap_cons, List.map_append, List.append_assoc] at hsyms
    obtain ⟨c1, hcall, hsyms1⟩ := patient_line hl ht hsyms hfuel
    have hfewer : c1.symbols.countP isTimeout < fuel :=
      lt_of_le_of_lt ((patient_line_suffix hcall).sublist.countP_le) hfuel
    obtain ⟨c2, hrest, hend⟩ := ih hls' hsyms1 hfewer
    refine ⟨c2, ?_, hend⟩
    rw [List.length_cons, receiveLines, hcall]
    simp only [Option.bind_eq_bind, Option.bind_some]
    rw [hrest]
    rfl

/-- Lines that are sent over a transport that goes on to take bytes are the lines that are received, in their
order and whole, whatever the two ends of the transport make of them: how many bytes they take and give at a
time, and when they time out. -/
theorem lines_delivered {ls : List Bytes} (hls : ∀ l ∈ ls, ∀ c ∈ l, inLine c) (ht : t = [10] ∨ t = [13, 10])
    {fuel : ℕ} {c : Conn} (hopen : Open c.outgoing (ls.flatMap (· ++ t)).length)
    (hfuel : (c.outgoing.countP fun s => !s.isTakes) < fuel) :
    ∃ c' sent, sendLines t fuel ls c = some (IO_DONE, c') ∧ c'.wire = c.wire ++ sent ∧
      ∀ (d : Conn) (rest : List Sym) (fuel : ℕ), d.view.calm.symbols = sent.map .inl ++ rest →
        d.symbols.countP isTimeout < fuel →
        ∃ d', receiveLines fuel ls.length d = some (ls.map (IO_DONE, ·), d') ∧
          d'.view.calm.symbols = rest := by
  obtain ⟨c', hsend, hwire⟩ := sendLines_done hopen hfuel
  exact ⟨c', _, hsend, hwire, fun d rest fuel hsyms hd => receiveLines_read hls ht hsyms hd⟩

theorem lines_delivered_sample :
    ∃ c' sent, sendLines [13, 10] 2 [bytes "a", []] { sampleConn with
          outgoing := .fail ⟨IO_TIMEOUT, by decide⟩ :: List.replicate 5 (.takes 1 (by decide)) } =
        some (IO_DONE, c') ∧ c'.wire = [] ++ sent ∧
      ∀ (d : Conn) (rest : List Sym) (fuel : ℕ), d.view.calm.symbols = sent.map .inl ++ rest →
        d.symbols.countP isTimeout < fuel →
        ∃ d', receiveLines fuel [bytes "a", []].length d = some ([bytes "a", []].map (IO_DONE, ·), d') ∧
          d'.view.calm.symbols = rest :=
  lines_delivered (by decide +kernel) (.inr rfl) ⟨by decide +kernel, by simp⟩ (by decide +kernel)

end Lines
end LuaTT.Buffer
