import LuaTT.Socket.Buffer

/-! What `receive` gives, seen from the bytes and errors in their order: the buffer, and how the transport
cuts its bytes, make no difference, and no byte is lost or given twice. -/
namespace LuaTT.Buffer
open Lua
set_option autoImplicit false

/-! ## Bytes and errors in their order -/

abbrev Sym := UInt8 ⊕ Failure

def Recv.symbols : Recv → List Sym
  | .bytes got _ => got.map .inl
  | .fail err => [.inr err]

/-- What the calls to come will meet, and the count of the bytes read, as the buffer counts them. -/
structure View where
  symbols : List Sym
  received : UInt32
  deriving DecidableEq

def Conn.symbols (c : Conn) : List Sym := c.data.map .inl ++ c.incoming.flatMap Recv.symbols

def Conn.view (c : Conn) : View := ⟨c.symbols, c.received⟩

theorem count_add (n : UInt32) (j k : ℕ) : n + .ofNat j + .ofNat k = n + .ofNat (j + k) := by
  rw [UInt32.add_assoc, UInt32.ofNat_add]

theorem count_succ (n : UInt32) (k : ℕ) : n + 1 + .ofNat k = n + .ofNat (k + 1) := by
  rw [Nat.add_comm k 1, ← count_add]
  rfl

/-! ## Receiving byte by byte -/

/-- A line: up to the next LF, without CRs. -/
def takeLine : Bytes → List Sym → UInt32 → Option (ℤ × Bytes × View)
  | _, [], _ => none
  | b, .inl c :: s, n =>
    if c = 10 then some (IO_DONE, b, ⟨s, n + 1⟩) else takeLine (if c ≠ 13 then b ++ [c] else b) s (n + 1)
  | b, .inr err :: s, n => some (err.1, b, ⟨s, n⟩)

/-- Everything up to the next error; the end of the connection is none if there has been something. -/
def takeAll : ℕ → Bytes → List Sym → UInt32 → Option (ℤ × Bytes × View)
  | _, _, [], _ => none
  | total, b, .inl c :: s, n => takeAll (total + 1) (b ++ [c]) s (n + 1)
  | total, b, .inr err :: s, n =>
    some (if err.1 = IO_CLOSED ∧ 0 < total then IO_DONE else err.1, b, ⟨s, n⟩)

def takeBytes : ℕ → Bytes → List Sym → UInt32 → Option (ℤ × Bytes × View)
  | 0, b, s, n => some (IO_DONE, b, ⟨s, n⟩)
  | _ + 1, _, [], _ => none
  | wanted + 1, b, .inl c :: s, n => takeBytes wanted (b ++ [c]) s (n + 1)
  | _ + 1, b, .inr err :: s, n => some (err.1, b, ⟨s, n⟩)

/-- A number of bytes. Even for none it is looked whether there is an error. -/
def takeRaw (wanted : ℕ) (b : Bytes) (s : List Sym) (n : UInt32) : Option (ℤ × Bytes × View) :=
  match s with
  | [] => none
  | .inl _ :: _ => takeBytes wanted b s n
  | .inr err :: s => some (err.1, b, ⟨s, n⟩)

/-- `receive`, byte by byte. -/
def View.receive (pat : Pattern) (part : Bytes) (v : View) : Option (ℤ × Bytes × View) :=
  match pat with
  | .line => takeLine part v.symbols v.received
  | .all => takeAll 0 part v.symbols v.received
  | .number n => takeRaw (((n : ℤ) - part.length) % 2 ^ 32).toNat part v.symbols v.received

/-! ## The buffer -/

/-- What `buffer_get` finds. -/
inductive Got (c : Conn) : Option (ℤ × Bytes × Conn) → Prop
  | waits (h : c.symbols = []) : Got c none
  | bytes {d : Bytes} {rest : List Recv} (hd : d ≠ [])
      (hsyms : c.symbols = d.map .inl ++ rest.flatMap Recv.symbols) (hturns : rest.length + 2 ≤ c.turns) :
      Got c (some (IO_DONE, d, { c with data := d, incoming := rest }))
  | error {err : Failure} {rest : List Recv} (hdata : c.data = [])
      (hsyms : c.symbols = .inr err :: rest.flatMap Recv.symbols) :
      Got c (some (err.1, [], { c with incoming := rest }))

theorem bufferGet_got (c : Conn) : Got c (bufferGet c) := by
  unfold bufferGet
  split_ifs with hdata
  · match hin : c.incoming with
    | [] => exact .waits (by simp [Conn.symbols, hdata, hin])
    | .bytes got h :: rest =>
      exact .bytes h.1 (by simp [Conn.symbols, hdata, hin, Recv.symbols])
        (by simp [Conn.turns, hdata, hin])
    | .fail err :: rest => exact .error hdata (by simp [Conn.symbols, hdata, hin, Recv.symbols])
  · exact .bytes hdata rfl (by simp [Conn.turns, hdata])

/-- A result with the connection as its caller sees it. -/
def seen (r : Option (ℤ × Bytes × Conn)) : Option (ℤ × Bytes × View) :=
  r.map fun (err, b, c) => (err, b, c.view)

@[simp] theorem seen_some (err : ℤ) (b : Bytes) (c : Conn) : seen (some (err, b, c)) = some (err, b, c.view) :=
  rfl

/-- A whole piece is read: its bytes are gone, and a turn of the loop. -/
theorem skip_all (c : Conn) (d : Bytes) (rest : List Recv) :
    (bufferSkip { c with data := d, incoming := rest } d.length).turns = rest.length + 1 ∧
      (bufferSkip { c with data := d, incoming := rest } d.length).symbols = rest.flatMap Recv.symbols ∧
      (bufferSkip { c with data := d, incoming := rest } d.length).received = c.received + .ofNat d.length := by
  simp [Conn.turns, Conn.symbols, bufferSkip]

theorem skip_none {c : Conn} (hdata : c.data = []) (rest : List Recv) :
    (bufferSkip { c with incoming := rest } 0).view = ⟨rest.flatMap Recv.symbols, c.received⟩ := by
  simp [bufferSkip, Conn.view, Conn.symbols, hdata]

/-! ## `*l` -/

theorem scanLine_cons {c : UInt8} (hc : c ≠ 10) (d : Bytes) : scanLine (c :: d) =
    ((scanLine d).1 + 1, if c ≠ 13 then c :: (scanLine d).2 else (scanLine d).2) := if_neg hc

/-- The rest of a line, after bytes of it that are in the buffer. -/
theorem takeLine_scan (d : Bytes) (b : Bytes) (s : List Sym) (n : UInt32) :
    takeLine b (d.map .inl ++ s) n =
      if (scanLine d).1 < d.length then
        some (IO_DONE, b ++ (scanLine d).2,
          ⟨(d.drop ((scanLine d).1 + 1)).map .inl ++ s, n + .ofNat ((scanLine d).1 + 1)⟩)
      else takeLine (b ++ (scanLine d).2) s (n + .ofNat d.length) := by
  induction d generalizing b n with
  | nil => simp [scanLine]
  | cons c d ih =>
    rw [List.map_cons, List.cons_append, takeLine]
    by_cases h10 : c = 10
    · simp [h10, scanLine]
    · have hline : (if c ≠ 13 then b ++ [c] else b) ++ (scanLine d).2 =
          b ++ if c ≠ 13 then c :: (scanLine d).2 else (scanLine d).2 := by
        split_ifs <;> simp
      rw [if_neg h10, ih, hline, scanLine_cons h10]
      simp only [List.length_cons, Nat.add_lt_add_iff_right, List.drop_succ_cons, count_succ]

theorem scanLine_all {d : Bytes} (h : ¬ (scanLine d).1 < d.length) : (scanLine d).1 = d.length := by
  induction d with
  | nil => rfl
  | cons c d ih =>
    by_cases h10 : c = 10
    · simp [h10, scanLine] at h
    · rw [scanLine_cons h10] at h ⊢
      simp only [List.length_cons, Nat.add_lt_add_iff_right] at h ⊢
      rw [ih h]

theorem recvline_seen (fuel : ℕ) (b : Bytes) (c : Conn) (hfuel : c.turns ≤ fuel) :
    seen (recvline fuel b c) = takeLine b c.symbols c.received := by
  induction fuel generalizing b c with
  | zero => simp [Conn.turns] at hfuel
  | succ fuel ih =>
    have hgot := bufferGet_got c
    unfold recvline
    generalize bufferGet c = r at hgot
    cases hgot with
    | waits h =>
      rw [h]
      rfl
    | @bytes d rest hd hsyms hturns =>
      rw [hsyms, takeLine_scan]
      simp only [Option.bind_eq_bind, Option.bind_some]
      split_ifs with hpos
      · rfl
      · obtain ⟨hnext, hsymbols, hreceived⟩ := skip_all c d rest
        rw [scanLine_all hpos, ih _ _ (by omega), hsymbols, hreceived]
    | @error err rest hdata hsyms =>
      rw [hsyms]
      simp [scanLine, err.2, takeLine, skip_none hdata]

/-! ## `*a` -/

theorem takeAll_bytes (d : Bytes) (total : ℕ) (b : Bytes) (s : List Sym) (n : UInt32) :
    takeAll total b (d.map .inl ++ s) n = takeAll (total + d.length) (b ++ d) s (n + .ofNat d.length) := by
  induction d generalizing total b n with
  | nil => simp
  | cons c d ih =>
    have hplus : total + 1 + d.length = total + (d.length + 1) := by omega
    rw [List.map_cons, List.cons_append, takeAll, ih, List.length_cons, hplus, count_succ, List.append_assoc]
    rfl

theorem recvall_seen (fuel total : ℕ) (b : Bytes) (c : Conn) (hfuel : c.turns ≤ fuel) :
    seen (recvall fuel total b c) = takeAll total b c.symbols c.received := by
  induction fuel generalizing total b c with
  | zero => simp [Conn.turns] at hfuel
  | succ fuel ih =>
    have hgot := bufferGet_got c
    unfold recvall
    generalize bufferGet c = r at hgot
    cases hgot with
    | waits h =>
      rw [h]
      rfl
    | @bytes d rest hd hsyms hturns =>
      obtain ⟨hnext, hsymbols, hreceived⟩ := skip_all c d rest
      rw [hsyms, takeAll_bytes]
      simp only [Option.bind_eq_bind, Option.bind_some, if_true]
      rw [ih _ _ _ (by omega), hsymbols, hreceived]
    | @error err rest hdata hsyms =>
      rw [hsyms]
      simp only [Option.bind_eq_bind, Option.bind_some, if_neg err.2, List.length_nil, Nat.add_zero,
        List.append_nil, takeAll]
      by_cases hclosed : err.1 = IO_CLOSED
      · simp only [hclosed, true_and, if_true, seen_some, skip_none hdata]
      · simp only [hclosed, false_and, if_false, seen_some, skip_none hdata]

/-! ## A number of bytes -/

theorem takeBytes_bytes (d : Bytes) (wanted : ℕ) (b : Bytes) (s : List Sym) (n : UInt32) :
    takeBytes wanted b (d.map .inl ++ s) n =
      if wanted ≤ d.length then
        some (IO_DONE, b ++ d.take wanted, ⟨(d.drop wanted).map .inl ++ s, n + .ofNat wanted⟩)
      else takeBytes (wanted - d.length) (b ++ d) s (n + .ofNat d.length) := by
  induction d generalizing wanted b n with
  | nil =>
    cases wanted with
    | zero => simp [takeBytes]
    | succ wanted => simp
  | cons c d ih =>
    cases wanted with
    | zero => simp [takeBytes]
    | succ wanted =>
      rw [List.map_cons, List.cons_append, takeBytes, ih]
      simp [count_succ]

theorem takeRaw_pos {wanted : ℕ} (h : 0 < wanted) (b : Bytes) (s : List Sym) (n : UInt32) :
    takeRaw wanted b s n = takeBytes wanted b s n := by
  obtain ⟨w, rfl⟩ : ∃ w, wanted = w + 1 := ⟨wanted - 1, by omega⟩
  match s with
  | [] | .inl _ :: _ | .inr _ :: _ => rfl

theorem recvraw_seen (wanted fuel total : ℕ) (b : Bytes) (c : Conn) (hfuel : c.turns ≤ fuel) :
    seen (recvraw wanted fuel total b c) = takeRaw (wanted - total) b c.symbols c.received := by
  induction fuel generalizing total b c with
  | zero => simp [Conn.turns] at hfuel
  | succ fuel ih =>
    have hgot := bufferGet_got c
    unfold recvraw
    generalize bufferGet c = r at hgot
    cases hgot with
    | waits h =>
      rw [h]
      rfl
    | @bytes d rest hd hsyms hturns =>
      have hraw : takeRaw (wanted - total) b c.symbols c.received =
          takeBytes (wanted - total) b c.symbols c.received := by
        obtain ⟨x, d, rfl⟩ := List.exists_cons_of_ne_nil hd
        rw [hsyms]
        rfl
      rw [hraw, hsyms, takeBytes_bytes]
      simp only [Option.bind_eq_bind, Option.bind_some, if_true]
      by_cases henough : wanted - total ≤ d.length
      · rw [if_pos henough, Nat.min_eq_right henough, if_pos (by omega)]
        rfl
      · obtain ⟨hnext, hsymbols, hreceived⟩ := skip_all c d rest
        rw [if_neg henough, Nat.min_eq_left (by omega), if_neg (by omega), List.take_length,
          ih _ _ _ (by omega), hsymbols, hreceived, takeRaw_pos (by omega), Nat.sub_add_eq]
    | @error err rest hdata hsyms =>
      rw [hsyms]
      simp [err.2, takeRaw, skip_none hdata]

/-! ## `receive` -/

/-- A call sees the bytes and the errors in their order, and nothing else of the transport. -/
theorem receive_seen (pat : Pattern) (part : Bytes) (c : Conn) :
    seen (receive pat part c) = c.view.receive pat part := by
  cases pat with
  | number n => exact recvraw_seen _ _ 0 part c (le_refl _)
  | line => exact recvline_seen _ part c (le_refl _)
  | all => exact recvall_seen _ 0 part c (le_refl _)

/-! ## Whole sessions -/

section Session
variable {κ : Type}

/-- A program that calls `receive` again and again, and looks at the results before it asks for more. -/
def session (recv : Pattern → Bytes → κ → Option (ℤ × Bytes × κ))
    (ask : List (ℤ × Bytes) → Pattern × Bytes) : ℕ → List (ℤ × Bytes) → κ → List (ℤ × Bytes) × Option κ
  | 0, past, c => (past, some c)
  | n + 1, past, c =>
    match recv (ask past).1 (ask past).2 c with
    | none => (past, none)
    | some (err, b, c) => session recv ask n (past ++ [(err, b)]) c

/-- Two receivers that agree on each call agree on whole sessions. -/
theorem session_map {κ' : Type} {recv : Pattern → Bytes → κ → Option (ℤ × Bytes × κ)}
    {recv' : Pattern → Bytes → κ' → Option (ℤ × Bytes × κ')} {f : κ → κ'}
    (h : ∀ pat part c, (recv pat part c).map (fun (err, b, c) => (err, b, f c)) = recv' pat part (f c))
    (ask : List (ℤ × Bytes) → Pattern × Bytes) (n : ℕ) (past : List (ℤ × Bytes)) (c : κ) :
    (session recv ask n past c).map id (Option.map f) = session recv' ask n past (f c) := by
  induction n generalizing past c with
  | zero => rfl
  | succ n ih =>
    unfold session
    rw [← h]
    cases recv (ask past).1 (ask past).2 c with
    | none => rfl
    | some r =>
      obtain ⟨err, b, c'⟩ := r
      exact ih (past ++ [(err, b)]) c'

end Session

/-- A program cannot tell how its bytes have been buffered and cut. -/
theorem session_seen (ask : List (ℤ × Bytes) → Pattern × Bytes) (n : ℕ) (past : List (ℤ × Bytes))
    (c : Conn) :
    (session receive ask n past c).map id (Option.map Conn.view) =
      session (fun pat part v => View.receive pat part v) ask n past c.view :=
  session_map receive_seen ask n past c

/-! ## No byte is lost -/

def bytesOf (s : List Sym) : Bytes := s.filterMap Sum.getLeft?

@[simp] theorem bytesOf_inl (c : UInt8) (s : List Sym) : bytesOf (.inl c :: s) = c :: bytesOf s := rfl

@[simp] theorem bytesOf_inr (err : Failure) (s : List Sym) : bytesOf (.inr err :: s) = bytesOf s := rfl

/-- What has been read, `taken`, and what has not are what there was, and the bytes read are counted. -/
structure Reads (v v' : View) (taken : Bytes) : Prop where
  bytes : bytesOf v.symbols = taken ++ bytesOf v'.symbols
  count : v'.received = v.received + .ofNat taken.length

theorem Reads.cons {c : UInt8} {s : List Sym} {n : UInt32} {v' : View} {taken : Bytes}
    (h : Reads ⟨s, n + 1⟩ v' taken) : Reads ⟨.inl c :: s, n⟩ v' (c :: taken) where
  bytes := congrArg (c :: ·) h.bytes
  count := by
    have hcount : v'.received = n + 1 + .ofNat taken.length := h.count
    rw [hcount, count_succ]
    rfl

theorem Reads.error (err : Failure) (s : List Sym) (n : UInt32) : Reads ⟨.inr err :: s, n⟩ ⟨s, n⟩ [] :=
  ⟨rfl, (UInt32.add_zero n).symm⟩

theorem Reads.none (v : View) : Reads v v [] := ⟨rfl, (UInt32.add_zero _).symm⟩

theorem takeLine_reads {b : Bytes} {s : List Sym} {n : UInt32} {err : ℤ} {b' : Bytes} {v' : View}
    (h : takeLine b s n = some (err, b', v')) :
    ∃ line taken, Reads ⟨s, n⟩ v' taken ∧ b' = b ++ line.filter (· ≠ 13) ∧ 10 ∉ line ∧
      taken = line ++ if err = IO_DONE then [10] else [] := by
  induction s generalizing b n with
  | nil => cases h
  | cons x s ih =>
    cases x with
    | inl c =>
      rw [takeLine] at h
      split_ifs at h with h10 h13
      · cases h
        exact ⟨[], [c], .cons (.none _), by simp, by simp, by simp [h10]⟩
      · obtain ⟨line, taken, hreads, rfl, hline, rfl⟩ := ih h
        exact ⟨c :: line, _, hreads.cons, by simp [h13], by simp [Ne.symm h10, hline], rfl⟩
      · obtain ⟨line, taken, hreads, rfl, hline, rfl⟩ := ih h
        exact ⟨c :: line, _, hreads.cons, by simp [h13], by simp [Ne.symm h10, hline], rfl⟩
    | inr e =>
      cases h
      exact ⟨[], [], .error _ _ _, by simp, by simp, by simp [e.2]⟩

theorem takeAll_reads {total : ℕ} {b : Bytes} {s : List Sym} {n : UInt32} {err : ℤ} {b' : Bytes} {v' : View}
    (h : takeAll total b s n = some (err, b', v')) :
    ∃ taken, Reads ⟨s, n⟩ v' taken ∧ b' = b ++ taken := by
  induction s generalizing total b n with
  | nil => cases h
  | cons x s ih =>
    cases x with
    | inl c =>
      obtain ⟨taken, hreads, rfl⟩ := ih h
      exact ⟨c :: taken, hreads.cons, by simp⟩
    | inr e =>
      cases h
      exact ⟨[], .error _ _ _, (List.append_nil _).symm⟩

theorem takeBytes_reads {wanted : ℕ} {b : Bytes} {s : List Sym} {n : UInt32} {err : ℤ} {b' : Bytes} {v' : View}
    (h : takeBytes wanted b s n = some (err, b', v')) :
    ∃ taken, Reads ⟨s, n⟩ v' taken ∧ b' = b ++ taken := by
  induction s generalizing wanted b n with
  | nil =>
    cases wanted with
    | zero =>
      cases h
      exact ⟨[], .none _, (List.append_nil _).symm⟩
    | succ wanted => cases h
  | cons x s ih =>
    cases wanted with
    | zero =>
      cases h
      exact ⟨[], .none _, (List.append_nil _).symm⟩
    | succ wanted =>
      cases x with
      | inl c =>
        obtain ⟨taken, hreads, rfl⟩ := ih h
        exact ⟨c :: taken, hreads.cons, by simp⟩
      | inr e =>
        cases h
        exact ⟨[], .error _ _ _, (List.append_nil _).symm⟩

theorem takeRaw_reads {wanted : ℕ} {b : Bytes} {s : List Sym} {n : UInt32} {err : ℤ} {b' : Bytes} {v' : View}
    (h : takeRaw wanted b s n = some (err, b', v')) :
    ∃ taken, Reads ⟨s, n⟩ v' taken ∧ b' = b ++ taken := by
  cases s with
  | nil => cases h
  | cons x s =>
    cases x with
    | inl c => exact takeBytes_reads h
    | inr e =>
      cases h
      exact ⟨[], .error _ _ _, (List.append_nil _).symm⟩

/-- A byte of a line. -/
def inLine (c : UInt8) : Bool := c ≠ 13 && c ≠ 10

theorem receive_reads {pat : Pattern} {part : Bytes} {v : View} {err : ℤ} {b : Bytes} {v' : View}
    (h : v.receive pat part = some (err, b, v')) :
    ∃ taken, Reads v v' taken ∧ b = part ++ if pat = .line then taken.filter inLine else taken := by
  cases pat with
  | number n => exact takeRaw_reads h
  | all => exact takeAll_reads h
  | line =>
    obtain ⟨line, taken, hreads, rfl, hline, rfl⟩ := takeLine_reads h
    have hfilter : line.filter inLine = line.filter (· ≠ 13) := by
      apply List.filter_congr
      intro c hc
      have hne : c ≠ 10 := fun h10 => hline (h10 ▸ hc)
      simp [inLine, hne]
    refine ⟨_, hreads, ?_⟩
    rw [if_pos rfl, List.filter_append, hfilter]
    split_ifs <;> simp [inLine]

theorem Reads.trans {u v w : View} {s t : Bytes} (h : Reads u v s) (h' : Reads v w t) :
    Reads u w (s ++ t) where
  bytes := by rw [h.bytes, h'.bytes, List.append_assoc]
  count := by rw [h'.count, h.count, List.length_append, count_add]

theorem session_reads_from {ask : List (ℤ × Bytes) → Pattern × Bytes} (hask : ∀ past, (ask past).2 = [])
    {n : ℕ} {past : List (ℤ × Bytes)} {v : View} {results : List (ℤ × Bytes)} {v' : View}
    (h : session (fun pat part v => View.receive pat part v) ask n past v = (results, some v')) :
    ∃ later taken, results = past ++ later ∧ Reads v v' taken ∧
      (later.flatMap Prod.snd).filter inLine = taken.filter inLine ∧
      ((∀ past, (ask past).1 ≠ .line) → later.flatMap Prod.snd = taken) := by
  induction n generalizing past v with
  | zero =>
    cases h
    exact ⟨[], [], (List.append_nil _).symm, .none _, rfl, fun _ => rfl⟩
  | succ n ih =>
    unfold session at h
    cases hr : v.receive (ask past).1 (ask past).2 with
    | none =>
      simp only [hr] at h
      cases h
    | some r =>
      obtain ⟨err, b, w⟩ := r
      simp only [hr] at h
      obtain ⟨later, taken, rfl, hreads, hlines, hraw⟩ := ih h
      obtain ⟨first, hfirst, rfl⟩ := receive_reads hr
      simp only [hask past, List.nil_append] at *
      refine ⟨_ :: later, first ++ taken, (List.append_assoc ..), hfirst.trans hreads, ?_, ?_⟩
      · rw [List.flatMap_cons, List.filter_append, List.filter_append, hlines]
        split_ifs
        · simp
        · rfl
      · intro hbinary
        rw [List.flatMap_cons, hraw hbinary, if_neg (hbinary past)]

/-- In a session without prefixes every byte that has been read is in one result, in its place, but for the
CRs and LFs that lines lose; and what has not been read is still there. -/
theorem session_reads (ask : List (ℤ × Bytes) → Pattern × Bytes) (hask : ∀ past, (ask past).2 = [])
    {n : ℕ} {c c' : Conn} {results : List (ℤ × Bytes)}
    (h : session receive ask n [] c = (results, some c')) :
    ∃ taken, Reads c.view c'.view taken ∧
      (results.flatMap Prod.snd).filter inLine = taken.filter inLine ∧
      ((∀ past, (ask past).1 ≠ .line) → results.flatMap Prod.snd = taken) := by
  have hseen := session_map receive_seen ask n [] c
  rw [h] at hseen
  obtain ⟨later, taken, hlater, hreads, hlines, hraw⟩ := session_reads_from hask hseen.symm
  obtain rfl : results = later := hlater
  exact ⟨taken, hreads, hlines, hraw⟩

/-- A line in two pieces with a timeout between them, and the end of the connection. -/
def sampleConn : Conn where
  data := []
  received := 0
  sent := 0
  incoming := [.bytes (bytes "Rene") (by decide), .fail ⟨IO_TIMEOUT, by decide⟩,
    .bytes (bytes "gade\r\n") (by decide), .fail ⟨IO_CLOSED, by decide⟩]
  outgoing := []
  wire := []

theorem session_reads_sample :
    ∃ taken, Reads sampleConn.view ⟨[.inl 101, .inr ⟨IO_TIMEOUT, by decide⟩, .inl 103, .inl 97, .inl 100,
        .inl 101, .inl 13, .inl 10, .inr ⟨IO_CLOSED, by decide⟩], 3⟩ taken ∧
      ([(IO_DONE, bytes "Ren")].flatMap Prod.snd).filter inLine = taken.filter inLine ∧
      ((∀ _ : List (ℤ × Bytes), Pattern.number 3 ≠ .line) →
        [(IO_DONE, bytes "Ren")].flatMap Prod.snd = taken) :=
  have h : session receive (fun _ => (.number 3, [])) 1 [] sampleConn = ([(IO_DONE, bytes "Ren")], some
      (bufferSkip { sampleConn with data := bytes "Rene", incoming := sampleConn.incoming.tail } 3)) := rfl
  session_reads (fun _ => (.number 3, [])) (fun _ => rfl) h

/-! ## After a timeout -/

section Patient
variable {κ : Type}

/-- The call again, with what it has given, as long as it has timed out. -/
def patient (recv : Pattern → Bytes → κ → Option (ℤ × Bytes × κ)) (pat : Pattern) :
    ℕ → Bytes → κ → Option (ℤ × Bytes × κ)
  | 0, _, _ => none
  | fuel + 1, part, c => do
    let (err, b, c) ← recv pat part c
    if err = IO_TIMEOUT then patient recv pat fuel b c else some (err, b, c)

end Patient

theorem patient_seen (pat : Pattern) (fuel : ℕ) (part : Bytes) (c : Conn) :
    seen (patient receive pat fuel part c) =
      patient (fun pat part v => View.receive pat part v) pat fuel part c.view := by
  induction fuel generalizing part c with
  | zero => rfl
  | succ fuel ih =>
    unfold patient
    rw [← receive_seen]
    cases receive pat part c with
    | none => rfl
    | some r =>
      obtain ⟨err, b, c'⟩ := r
      simp only [seen_some, Option.bind_eq_bind, Option.bind_some]
      split_ifs
      · exact ih b c'
      · rfl

def isTimeout : Sym → Bool
  | .inl _ => false
  | .inr err => err.1 = IO_TIMEOUT

/-- The same without the timeouts. -/
def View.calm (v : View) : View := ⟨v.symbols.filter fun x => !isTimeout x, v.received⟩

def calmed (r : Option (ℤ × Bytes × View)) : Option (ℤ × Bytes × View) :=
  r.map fun (err, b, v) => (err, b, v.calm)

/-- What `patient` does with a result. -/
def retry (pat : Pattern) (fuel : ℕ) (r : Option (ℤ × Bytes × View)) : Option (ℤ × Bytes × View) :=
  r.bind fun (err, b, v) =>
    if err = IO_TIMEOUT then patient (fun pat part v => View.receive pat part v) pat fuel b v
    else some (err, b, v)

theorem patient_succ (pat : Pattern) (fuel : ℕ) (part : Bytes) (v : View) :
    patient (fun pat part v => View.receive pat part v) pat (fuel + 1) part v =
      retry pat fuel (v.receive pat part) := rfl

section Calm
variable {s : List Sym} {fuel : ℕ}

/-- A failure ends the call, if it is not a timeout; then there is one less to come. -/
theorem retry_error (pat : Pattern) (err : Failure) (b : Bytes) (n : UInt32)
    (hfuel : List.countP isTimeout (.inr err :: s) ≤ fuel) :
    (err.1 = IO_TIMEOUT ∧ ∃ f, fuel = f + 1 ∧ s.countP isTimeout ≤ f ∧
        retry pat fuel (some (err.1, b, ⟨s, n⟩)) = retry pat f (View.receive pat b ⟨s, n⟩)) ∨
      (err.1 ≠ IO_TIMEOUT ∧ retry pat fuel (some (err.1, b, ⟨s, n⟩)) = some (err.1, b, ⟨s, n⟩)) := by
  by_cases htimeout : err.1 = IO_TIMEOUT
  · rw [List.countP_cons_of_pos (by simpa [isTimeout] using htimeout)] at hfuel
    obtain ⟨f, rfl⟩ : ∃ f, fuel = f + 1 := ⟨fuel - 1, by omega⟩
    refine .inl ⟨htimeout, f, rfl, by omega, ?_⟩
    rw [← patient_succ]
    exact if_pos htimeout
  · exact .inr ⟨htimeout, if_neg htimeout⟩

theorem calm_inl (c : UInt8) (s : List Sym) :
    (Sum.inl c :: s : List Sym).filter (fun x => !isTimeout x) =
      .inl c :: s.filter fun x => !isTimeout x := rfl

theorem calm_timeout {err : Failure} (h : err.1 = IO_TIMEOUT) (s : List Sym) :
    (Sum.inr err :: s : List Sym).filter (fun x => !isTimeout x) = s.filter fun x => !isTimeout x :=
  List.filter_cons_of_neg (by simpa [isTimeout] using h)

theorem calm_error {err : Failure} (h : err.1 ≠ IO_TIMEOUT) (s : List Sym) :
    (Sum.inr err :: s : List Sym).filter (fun x => !isTimeout x) =
      .inr err :: s.filter fun x => !isTimeout x :=
  List.filter_cons_of_pos (by simpa [isTimeout] using h)

theorem retry_line (s : List Sym) (b : Bytes) (n : UInt32) (fuel : ℕ) (hfuel : s.countP isTimeout ≤ fuel) :
    calmed (retry .line fuel (takeLine b s n)) = takeLine b (s.filter fun x => !isTimeout x) n := by
  induction s generalizing b n fuel with
  | nil => rfl
  | cons x s ih =>
    cases x with
    | inl c =>
      rw [calm_inl, takeLine, takeLine]
      split_ifs
      · rfl
      · exact ih _ _ _ hfuel
      · exact ih _ _ _ hfuel
    | inr err =>
      obtain ⟨htimeout, f, rfl, hf, hretry⟩ | ⟨htimeout, hretry⟩ := retry_error .line err b n hfuel
      · rw [takeLine, hretry, calm_timeout htimeout]
        exact ih b n f hf
      · rw [takeLine, hretry, calm_error htimeout]
        rfl

theorem receive_number {N w : ℕ} {b : Bytes} (hw : b.length + w = N) (hN : N < 2 ^ 32) (v : View) :
    v.receive (.number N) b = takeRaw w b v.symbols v.received := by
  have hwanted : (((N : ℤ) - b.length) % 2 ^ 32).toNat = w := by omega
  show takeRaw _ b v.symbols v.received = _
  rw [hwanted]

theorem retry_bytes {N : ℕ} (hN : N < 2 ^ 32) (s : List Sym) (w : ℕ) (b : Bytes) (n : UInt32)
    (fuel : ℕ) (hw : b.length + w = N) (hfuel : s.countP isTimeout ≤ fuel) :
    calmed (retry (.number N) fuel (takeBytes w b s n)) =
      takeBytes w b (s.filter fun x => !isTimeout x) n := by
  induction s generalizing w b n fuel with
  | nil => cases w <;> rfl
  | cons x s ih =>
    cases w with
    | zero =>
      have hdone (s : List Sym) : takeBytes 0 b s n = some (IO_DONE, b, ⟨s, n⟩) := by
        cases s <;> rfl
      rw [hdone, hdone]
      rfl
    | succ w =>
      cases x with
      | inl c =>
        rw [calm_inl, takeBytes, takeBytes]
        apply ih _ _ _ _ _ hfuel
        rw [List.length_append, List.length_singleton]
        omega
      | inr err =>
        obtain ⟨htimeout, f, rfl, hf, hretry⟩ | ⟨htimeout, hretry⟩ :=
          retry_error (.number N) err b n hfuel
        · rw [takeBytes, hretry, calm_timeout htimeout, receive_number hw hN, takeRaw_pos (by omega)]
          exact ih _ b n f hw hf
        · rw [takeBytes, hretry, calm_error htimeout]
          rfl

theorem retry_raw {N : ℕ} (hN : N < 2 ^ 32) (s : List Sym) (w : ℕ) (b : Bytes) (n : UInt32)
    (fuel : ℕ) (hw : b.length + w = N) (hfuel : s.countP isTimeout ≤ fuel) :
    calmed (retry (.number N) fuel (takeRaw w b s n)) =
      takeRaw w b (s.filter fun x => !isTimeout x) n := by
  induction s generalizing fuel with
  | nil => rfl
  | cons x s ih =>
    cases x with
    | inl c => exact retry_bytes hN (.inl c :: s) w b n fuel hw hfuel
    | inr err =>
      obtain ⟨htimeout, f, rfl, hf, hretry⟩ | ⟨htimeout, hretry⟩ :=
        retry_error (.number N) err b n hfuel
      · rw [takeRaw, hretry, calm_timeout htimeout, receive_number hw hN]
        exact ih f hf
      · rw [takeRaw, hretry, calm_error htimeout]
        rfl

end Calm

/-- A call that can be taken up again with what it has given: not `*a`, which asks for bytes of its own to
take the end of the connection for the end of the data. -/
def Resumes (part : Bytes) : Pattern → Prop
  | .line => True
  | .number n => part.length ≤ n ∧ n < 2 ^ 32
  | .all => False

theorem patient_view {pat : Pattern} {part : Bytes} (hpat : Resumes part pat) (v : View) {fuel : ℕ}
    (hfuel : v.symbols.countP isTimeout < fuel) :
    calmed (patient (fun pat part v => View.receive pat part v) pat fuel part v) =
      v.calm.receive pat part := by
  obtain ⟨f, rfl⟩ : ∃ f, fuel = f + 1 := ⟨fuel - 1, by omega⟩
  rw [patient_succ]
  cases pat with
  | line => exact retry_line v.symbols part v.received f (by omega)
  | number n =>
    have hw : part.length + (n - part.length) = n := by have := hpat.1; omega
    rw [receive_number hw hpat.2, receive_number hw hpat.2]
    exact retry_raw hpat.2 v.symbols _ part v.received f hw (by omega)
  | all => exact hpat.elim

/-- Taken up after each timeout, a call gives in the end what it would have given without any. -/
theorem patient_calm {pat : Pattern} {part : Bytes} (hpat : Resumes part pat) (c : Conn) {fuel : ℕ}
    (hfuel : c.symbols.countP isTimeout < fuel) :
    calmed (seen (patient receive pat fuel part c)) = c.view.calm.receive pat part := by
  rw [patient_seen]
  exact patient_view hpat c.view hfuel

theorem patient_calm_sample :
    calmed (seen (patient receive .line 2 [] sampleConn)) = sampleConn.view.calm.receive .line [] :=
  patient_calm (show Resumes [] .line from trivial) sampleConn (by decide)

/-- `*a`, when all the bytes have come before the timeout. -/
example : (seen (patient receive .all 2 [] { sampleConn with
      incoming := [.bytes (bytes "x") (by decide), .fail ⟨IO_TIMEOUT, by decide⟩,
        .fail ⟨IO_CLOSED, by decide⟩] })).map (fun r => (r.1, r.2.1)) = some (IO_CLOSED, bytes "x") ∧
    (seen (receive .all [] { sampleConn with
      incoming := [.bytes (bytes "x") (by decide), .fail ⟨IO_CLOSED, by decide⟩] })).map
        (fun r => (r.1, r.2.1)) = some (IO_DONE, bytes "x") := by decide +kernel

end LuaTT.Buffer
