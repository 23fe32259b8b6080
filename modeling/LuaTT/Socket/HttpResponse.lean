import Mathlib.Data.List.Induction
import Mathlib.Data.List.Nodup
import LuaTT.Socket.HttpBody

/-! The answer to a request, from the lines a server writes to the results `trequest` returns. -/
namespace LuaTT.Http
open Lua Buffer Ltn12
set_option autoImplicit false

/-! ## What a server writes -/

structure StatusLine where
  major : Bytes
  minor : Bytes
  code : Bytes
  reason : Bytes
  digits : ∀ c ∈ major ++ minor ++ code, ljCharIsdigit c = true
  three : code.length = 3
  line : ∀ c ∈ reason, inLine c = true

def StatusLine.text (st : StatusLine) : Bytes :=
  bytes "HTTP/" ++ (st.major ++ 46 :: (st.minor ++ 32 :: (st.code ++ st.reason)))

def StatusLine.number (st : StatusLine) : ℕ := readDigits 0 st.code

structure Field where
  name : Bytes
  value : Bytes
  name_line : ∀ c ∈ name, inLine c = true ∧ c ≠ 58
  value_line : ∀ c ∈ value, inLine c = true
  /-- Neither begins with a space; a line that does belongs to the value before it. -/
  unspaced : (name.take 1).any ljCharIsspace = false ∧ (value.take 1).any ljCharIsspace = false

def Field.text (f : Field) : Bytes := f.name ++ bytes ": " ++ f.value

def fieldsText (fs : List Field) : Bytes := fs.flatMap (fun f => f.text ++ [13, 10]) ++ [13, 10]

def responseText (r : StatusLine × List Field) : Bytes := r.1.text ++ [13, 10] ++ fieldsText r.2

/-- The values that fields give to a name, whatever its letters, with commas between them. -/
def headersOf (fs : List Field) : Headers := fun name =>
  match (fs.filter fun f => lower f.name = name).map Field.value with
  | [] => none
  | vs => some ((bytes ", ").intercalate vs)

/-! ## The status line -/

section Status
variable (wstrerror : ℤ → Bytes) {c : Conn} {rest : List Sym}

theorem dropWhile_digits {ds : Bytes} (hds : ∀ c ∈ ds, ljCharIsdigit c = true) {x : UInt8}
    (hx : ljCharIsdigit x = false) (p : Bytes) : (ds ++ x :: p).dropWhile ljCharIsdigit = x :: p := by
  rw [List.dropWhile_append_of_pos hds, List.dropWhile_cons_of_neg (by simp [hx])]

theorem http_eq : bytes "HTTP/" = [72, 84, 84, 80, 47] := by
  decide +kernel

theorem matchStatus_text (st : StatusLine) : matchStatus st.text = some st.code := by
  obtain ⟨x, y, z, hcode⟩ := List.length_eq_three.mp st.three
  have hmajor : ∀ c ∈ st.major, ljCharIsdigit c = true := fun c hc => st.digits c (by simp [hc])
  have hminor : ∀ c ∈ st.minor, ljCharIsdigit c = true := fun c hc => st.digits c (by simp [hc])
  have hthree : [x, y, z].all ljCharIsdigit = true := by
    rw [← hcode, List.all_eq_true]
    exact fun c hc => st.digits c (by simp [hc])
  have hprefix : bytes "HTTP/" <+: st.text := List.prefix_append _ _
  have hdrop : st.text.drop 5 = st.major ++ 46 :: (st.minor ++ 32 :: (st.code ++ st.reason)) := by
    rw [StatusLine.text, http_eq]
    rfl
  rw [matchStatus, if_pos hprefix, hdrop, dropWhile_digits hmajor (by decide)]
  simp only
  rw [dropWhile_digits hminor (by decide), hcode]
  simp only [List.cons_append, List.nil_append, if_pos hthree]

theorem findStatus_text (st : StatusLine) : findStatus st.text = some st.code := by
  obtain ⟨x, p, hp⟩ : ∃ x p, st.text = x :: p := by
    rw [StatusLine.text, http_eq]
    exact ⟨_, _, rfl⟩
  have hmatch := matchStatus_text st
  rw [hp] at hmatch
  have htails : (x :: p).tails = (x :: p) :: p.tails := by simp [List.tails]
  rw [findStatus, hp, htails, List.findSome?_cons, hmatch]

theorem StatusLine.rest_inLine (st : StatusLine) :
    ∀ c ∈ st.major ++ 46 :: (st.minor ++ 32 :: (st.code ++ st.reason)), inLine c = true := by
  have hdigit : ∀ c, ljCharIsdigit c = true → inLine c = true := by
    intro c hc
    obtain ⟨hlow, -⟩ := isdigit_bounds hc
    have h13 : c ≠ 13 := by
      rintro rfl
      exact absurd hlow (by decide)
    have h10 : c ≠ 10 := by
      rintro rfl
      exact absurd hlow (by decide)
    simp [inLine, h13, h10]
  intro c hc
  simp only [List.mem_append, List.mem_cons] at hc
  obtain hc | rfl | hc | rfl | hc | hc := hc
  · exact hdigit c (st.digits c (by simp [hc]))
  · decide
  · exact hdigit c (st.digits c (by simp [hc]))
  · decide
  · exact hdigit c (st.digits c (by simp [hc]))
  · exact st.line c hc

theorem receivestatusline_text (st : StatusLine) (h : c.symbols = (st.text ++ [13, 10]).map .inl ++ rest) :
    ∃ c', receivestatusline wstrerror c = .ok ((some st.number, st.text), c') ∧ c'.symbols = rest := by
  rw [StatusLine.text, List.append_assoc, List.map_append, List.append_assoc] at h
  have hfive : (bytes "HTTP/").length = 5 := by rw [http_eq]; rfl
  obtain ⟨c1, hcall1, hsyms1⟩ := sockReceive_number wstrerror (by rw [http_eq]; simp) (by rw [hfive]; decide) h
  obtain ⟨c2, hcall2, hsyms2⟩ := sockReceive_line wstrerror st.rest_inLine (bytes "HTTP/") hsyms1
  have htext : bytes "HTTP/" ++ (st.major ++ 46 :: (st.minor ++ 32 :: (st.code ++ st.reason))) = st.text := rfl
  rw [hfive] at hcall1
  rw [htext] at hcall2
  refine ⟨c2, ?_, hsyms2⟩
  unfold receivestatusline
  simp only [tryReceive, hcall1, hcall2, untried, bind, Except.bind, Option.isSome_none, Bool.false_eq_true,
    if_false, pure, Except.pure, ne_eq, not_true_eq_false, findStatus_text]
  rfl

end Status

/-! ## The header fields -/

section Fields
variable (wstrerror : ℤ → Bytes) {c : Conn} {rest : List Sym}

theorem colon_eq : bytes ": " = [58, 32] := by
  decide +kernel

theorem Field.text_eq (f : Field) : f.text = f.name ++ 58 :: 32 :: f.value := by
  rw [Field.text, colon_eq, List.append_assoc]
  rfl

theorem dropWhile_unspaced {s : Bytes} (hs : (s.take 1).any ljCharIsspace = false) :
    s.dropWhile ljCharIsspace = s := by
  cases s with
  | nil => rfl
  | cons x s => exact List.dropWhile_cons_of_neg (by simpa using hs)

theorem splitHeader_text (f : Field) : splitHeader f.text = some (f.name, f.value) := by
  have hname : ∀ c ∈ f.name, decide (c ≠ 58) = true := fun c hc => decide_eq_true (f.name_line c hc).2
  have hdrop : f.text.dropWhile (· ≠ 58) = 58 :: 32 :: f.value := by
    rw [f.text_eq, List.dropWhile_append_of_pos hname, List.dropWhile_cons_of_neg (by decide)]
  have htake : f.text.takeWhile (· ≠ 58) = f.name := by
    rw [f.text_eq, List.takeWhile_append_of_pos hname, List.takeWhile_cons_of_neg (by decide), List.append_nil]
  have hvalue : (32 :: f.value).dropWhile ljCharIsspace = f.value := by
    rw [List.dropWhile_cons_of_pos (by decide), dropWhile_unspaced f.unspaced.2]
  simp only [splitHeader, hdrop, htake, hvalue]

theorem Field.text_inLine (f : Field) : ∀ c ∈ f.text, inLine c = true := by
  intro c hc
  rw [f.text_eq] at hc
  simp only [List.mem_append, List.mem_cons] at hc
  obtain hc | rfl | rfl | hc := hc
  · exact (f.name_line c hc).1
  · decide
  · decide
  · exact f.value_line c hc

theorem Field.text_ne_nil (f : Field) : f.text ≠ [] := by
  simp [f.text_eq]

theorem Field.text_unspaced (f : Field) : (f.text.take 1).any ljCharIsspace = false := by
  have hname := f.unspaced.1
  rw [f.text_eq]
  cases hn : f.name with
  | nil => rfl
  | cons x name =>
    rw [hn] at hname
    simpa using hname

/-- The line that is read next, and what comes after it. -/
def firstLine : List Field → Bytes
  | [] => []
  | f :: _ => f.text

def laterLines : List Field → Bytes
  | [] => []
  | _ :: fs => fieldsText fs

theorem fieldsText_eq (fs : List Field) : fieldsText fs = (firstLine fs ++ [13, 10]) ++ laterLines fs := by
  cases fs with
  | nil => rfl
  | cons f fs =>
    rw [fieldsText, List.flatMap_cons, List.append_assoc]
    rfl

theorem firstLine_inLine (fs : List Field) : ∀ c ∈ firstLine fs, inLine c = true := by
  cases fs with
  | nil => exact fun c hc => absurd hc (List.not_mem_nil)
  | cons f fs => exact f.text_inLine

def saveField (t : Headers) (f : Field) : Headers := fun n =>
  if n = lower f.name then some (joined (t (lower f.name)) f.value) else t n

theorem headersLoop_fields (f : Field) (fs : List Field) (t : Headers) {fuel : ℕ} (hfuel : fs.length + 2 ≤ fuel)
    (h : c.symbols = (fieldsText fs).map .inl ++ rest) :
    ∃ c', headersLoop wstrerror fuel (.table t) f.text c = .ok (.ok (.table ((f :: fs).foldl saveField t)), c') ∧
      c'.symbols = rest := by
  induction fs generalizing f t c fuel with
  | nil =>
    obtain ⟨fuel, rfl⟩ : ∃ k, fuel = k + 2 := ⟨fuel - 2, by omega⟩
    rw [fieldsText_eq, List.map_append, List.append_assoc] at h
    obtain ⟨c', hcall, hsyms⟩ := sockReceive_line wstrerror (firstLine_inLine []) [] h
    refine ⟨c', ?_, hsyms⟩
    rw [headersLoop, if_neg f.text_ne_nil, splitHeader_text]
    simp only [hcall, bind, Except.bind, List.nil_append]
    rfl
  | cons f' fs ih =>
    obtain ⟨fuel, rfl⟩ : ∃ k, fuel = k + 2 := ⟨fuel - 2, by omega⟩
    rw [List.length_cons] at hfuel
    rw [fieldsText_eq, List.map_append, List.append_assoc] at h
    obtain ⟨c1, hcall, hsyms⟩ := sockReceive_line wstrerror (firstLine_inLine (f' :: fs)) [] h
    have hfuel' : fs.length + 2 ≤ fuel + 1 := by omega
    obtain ⟨c', hloop, hend⟩ := ih f' (saveField t f) hfuel' hsyms
    have hfold : unfoldLines wstrerror (fuel + 1) f.value f'.text c1 = .ok (f.value, f'.text, c1) := by
      simp only [unfoldLines, f'.text_unspaced, Bool.false_eq_true, if_false]
      rfl
    refine ⟨c', ?_, hend⟩
    rw [headersLoop, if_neg f.text_ne_nil, splitHeader_text]
    simp only [hcall, bind, Except.bind, List.nil_append]
    show (unfoldLines wstrerror (fuel + 1) f.value f'.text c1 >>= _) = _
    rw [hfold]
    exact hloop

/-! What is saved for a name. -/

theorem intercalate_concat (sep v : Bytes) {vs : List Bytes} (hvs : vs ≠ []) :
    sep.intercalate (vs ++ [v]) = sep.intercalate vs ++ sep ++ v := by
  induction vs with
  | nil => exact absurd rfl hvs
  | cons u vs ih =>
    cases vs with
    | nil => simp [List.intercalate_cons_cons]
    | cons u' vs =>
      have hrest := ih (by simp)
      rw [List.cons_append] at hrest
      rw [List.cons_append, List.cons_append, List.intercalate_cons_cons, hrest, List.intercalate_cons_cons]
      simp only [List.append_assoc]

def valuesOf (fs : List Field) (name : Bytes) : List Bytes :=
  (fs.filter fun f => lower f.name = name).map Field.value

theorem headersOf_nil {fs : List Field} {name : Bytes} (h : valuesOf fs name = []) : headersOf fs name = none := by
  unfold valuesOf at h
  simp only [headersOf, h]

theorem headersOf_some {fs : List Field} {name : Bytes} (h : valuesOf fs name ≠ []) :
    headersOf fs name = some ((bytes ", ").intercalate (valuesOf fs name)) := by
  unfold valuesOf at h
  unfold headersOf
  split
  next hnil => exact absurd hnil h
  next => rfl

theorem saveField_eq (fs : List Field) (f : Field) : saveField (headersOf fs) f = headersOf (fs ++ [f]) := by
  funext name
  unfold saveField
  by_cases hname : name = lower f.name
  · have hvalues : valuesOf (fs ++ [f]) name = valuesOf fs name ++ [f.value] := by
      rw [valuesOf, List.filter_append, List.map_append, List.filter_singleton, decide_eq_true hname.symm]
      rfl
    have hne : valuesOf (fs ++ [f]) name ≠ [] := by simp [hvalues]
    rw [if_pos hname, ← hname, headersOf_some hne, hvalues]
    by_cases hold : valuesOf fs name = []
    · rw [headersOf_nil hold, hold, List.nil_append, List.intercalate_singleton]
      rfl
    · rw [headersOf_some hold, intercalate_concat _ _ hold]
      rfl
  · have hvalues : valuesOf (fs ++ [f]) name = valuesOf fs name := by
      rw [valuesOf, List.filter_append, List.map_append, List.filter_singleton,
        decide_eq_false fun h => hname h.symm]
      exact List.append_nil _
    rw [if_neg hname]
    by_cases hold : valuesOf fs name = []
    · rw [headersOf_nil hold, headersOf_nil (hvalues.trans hold)]
    · rw [headersOf_some hold, headersOf_some (by rwa [hvalues]), hvalues]

theorem foldl_saveField (fs : List Field) : fs.foldl saveField (fun _ => none) = headersOf fs := by
  induction fs using List.reverseRec with
  | nil => rfl
  | append_singleton fs f ih => rw [List.foldl_append, ih, List.foldl_cons, List.foldl_nil, saveField_eq]

theorem receiveheaders_fields (fs : List Field) {fuel : ℕ} (hfuel : fs.length + 1 ≤ fuel)
    (h : c.symbols = (fieldsText fs).map .inl ++ rest) :
    ∃ c', receiveheaders wstrerror fuel .nil c = .ok (.ok (.table (headersOf fs)), c') ∧ c'.symbols = rest := by
  rw [fieldsText_eq, List.map_append, List.append_assoc] at h
  obtain ⟨c1, hcall, hsyms⟩ := sockReceive_line wstrerror (firstLine_inLine fs) [] h
  cases fs with
  | nil =>
    obtain ⟨fuel, rfl⟩ : ∃ k, fuel = k + 1 := ⟨fuel - 1, by rw [List.length_nil] at hfuel; omega⟩
    refine ⟨c1, ?_, hsyms⟩
    unfold receiveheaders
    rw [hcall]
    rfl
  | cons f fs =>
    rw [List.length_cons] at hfuel
    obtain ⟨c', hloop, hend⟩ : ∃ c', headersLoop wstrerror fuel (.table fun _ => none) f.text c1 =
        .ok (.ok (.table ((f :: fs).foldl saveField fun _ => none)), c') ∧ c'.symbols = rest :=
      headersLoop_fields wstrerror f fs _ (by omega) hsyms
    refine ⟨c', ?_, hend⟩
    rw [foldl_saveField] at hloop
    unfold receiveheaders
    rw [hcall]
    exact hloop

end Fields

/-! ## Whole answers -/

/-- A body as the header fields announce it: what is read, and what the bytes and errors of it are. -/
inductive BodySent (wstrerror : ℤ → Bytes) (headers : Headers) (rest : List Sym) : List Sym → Bytes → Prop
  | httpChunked {cs : List Bytes} (hmode : bodyMode headers = .httpChunked) (hne : ∀ d ∈ cs, d ≠ [])
      (hmax : ∀ d ∈ cs, d.length < 2 ^ 32) :
      BodySent wstrerror headers rest ((chunkedText cs).map .inl ++ rest) cs.flatten
  | byLength {body : Bytes} (hmode : bodyMode headers = .byLength (Float.ofNat body.length))
      (hmax : body.length < 2 ^ 53) :
      BodySent wstrerror headers rest (body.map .inl ++ rest) body
  | untilClosed {body : Bytes} {err : Failure} (hmode : bodyMode headers = .untilClosed)
      (hclosed : socketStrerror wstrerror err.1 = bytes "closed") :
      BodySent wstrerror headers rest (body.map .inl ++ .inr err :: rest) body

section Answers
variable {wstrerror : ℤ → Bytes} {ω : Type} {snk : Sink ω} {P Q : ω → Bytes → Prop} {c : Conn} {rest : List Sym}

theorem tryHeaders_fields (wstrerror : ℤ → Bytes) (fs : List Field) {fuel : ℕ} (hfuel : fs.length + 1 ≤ fuel)
    (h : c.symbols = (fieldsText fs).map .inl ++ rest) :
    ∃ c', tryHeaders wstrerror fuel c = .ok (headersOf fs, c') ∧ c'.symbols = rest := by
  obtain ⟨c', hcall, hsyms⟩ := receiveheaders_fields wstrerror fs hfuel h
  refine ⟨c', ?_, hsyms⟩
  unfold tryHeaders
  rw [hcall]
  rfl

theorem length_fieldsText (fs : List Field) : fs.length + 2 ≤ (fieldsText fs).length := by
  induction fs with
  | nil => exact le_refl _
  | cons f fs ih =>
    have hcons : fieldsText (f :: fs) = (f.text ++ [13, 10]) ++ fieldsText fs := fieldsText_eq (f :: fs)
    rw [hcons, List.length_append, List.length_append, List.length_cons]
    simp only [List.length_cons, List.length_nil]
    omega

theorem text_symbols (r : StatusLine × List Field) (later : Bytes) (s : List Sym) :
    (responseText r ++ later).map .inl ++ s =
      (r.1.text ++ [13, 10]).map .inl ++ ((fieldsText r.2).map .inl ++ (later.map .inl ++ s)) := by
  rw [responseText]
  simp only [List.map_append, List.append_assoc]

theorem length_responseText (r : StatusLine × List Field) :
    (responseText r).length = r.1.text.length + 2 + (fieldsText r.2).length := by
  rw [responseText, List.length_append, List.length_append]
  rfl

/-- The answers with the code 100 are read and left. -/
theorem skipContinue_interim {interim : List (StatusLine × List Field)} (hinterim : ∀ r ∈ interim, r.1.number = 100)
    (st : StatusLine) (hst : st.number ≠ 100) (fs : List Field) {fuel : ℕ}
    (hfuel : (interim.flatMap responseText).length + 1 ≤ fuel)
    (h : c.symbols = (interim.flatMap responseText ++ responseText (st, fs)).map .inl ++ rest) :
    ∃ first c1 c', receivestatusline wstrerror c = .ok ((some (StatusLine.number first), first.text), c1) ∧
      skipContinue wstrerror fuel (some first.number, first.text) c1 = .ok ((some st.number, st.text), c') ∧
      c'.symbols = (fieldsText fs).map .inl ++ rest := by
  induction interim generalizing c fuel with
  | nil =>
    obtain ⟨fuel, rfl⟩ : ∃ k, fuel = k + 1 := ⟨fuel - 1, by omega⟩
    rw [List.flatMap_nil, List.nil_append, ← List.append_nil (responseText (st, fs)), text_symbols] at h
    obtain ⟨c1, hcall, hsyms⟩ := receivestatusline_text wstrerror st h
    refine ⟨st, c1, c1, hcall, ?_, hsyms⟩
    rw [skipContinue, if_neg fun heq => hst (Option.some.inj heq)]
  | cons r interim ih =>
    obtain ⟨fuel, rfl⟩ : ∃ k, fuel = k + 1 := ⟨fuel - 1, by omega⟩
    obtain ⟨hr, hinterim'⟩ := List.forall_mem_cons.mp hinterim
    rw [List.flatMap_cons, List.length_append] at hfuel
    rw [List.flatMap_cons, List.append_assoc, text_symbols] at h
    have hlen := length_responseText r
    have hfields := length_fieldsText r.2
    obtain ⟨c1, hcall, hsyms⟩ := receivestatusline_text wstrerror r.1 h
    have hfew : r.2.length + 1 ≤ fuel := by omega
    have hleft : (interim.flatMap responseText).length + 1 ≤ fuel := by omega
    obtain ⟨c2, hheaders, hsyms2⟩ := tryHeaders_fields wstrerror r.2 hfew hsyms
    obtain ⟨first, c3, c', hnext, hskip, hend⟩ := ih hinterim' hleft hsyms2
    refine ⟨r.1, c1, c', hcall, ?_, hend⟩
    rw [skipContinue, if_pos (congrArg some hr), hheaders]
    show (receivestatusline wstrerror c2 >>= _) = _
    rw [hnext]
    exact hskip

variable (wstrerror) in
/-- A whole block is there. -/
theorem sourceUntilClosed_piece {d : Bytes} (hd : d.length = socketBLOCKSIZE) (h : c.symbols = d.map .inl ++ rest) :
    ∃ c', sourceUntilClosed wstrerror (false, c) = .ok (⟨some d, none⟩, false, c') ∧ c'.symbols = rest := by
  have hsize : socketBLOCKSIZE < 2 ^ 32 := by decide
  have hne : d ≠ [] := by
    rintro rfl
    exact absurd hd (by decide)
  obtain ⟨c', hcall, hsyms⟩ := sockReceive_number wstrerror hne (by omega) h
  rw [hd] at hcall
  refine ⟨c', ?_, hsyms⟩
  simp only [sourceUntilClosed, Bool.false_eq_true, if_false, hcall]
  rfl

/-- The connection is closed: the source gives what there was, and is done. -/
theorem sourceUntilClosed_rest {d : Bytes} (hd : d.length < socketBLOCKSIZE) {err : Failure}
    (hclosed : socketStrerror wstrerror err.1 = bytes "closed") (h : c.symbols = d.map .inl ++ .inr err :: rest) :
    ∃ c', sourceUntilClosed wstrerror (false, c) = .ok (⟨some d, none⟩, true, c') ∧ c'.symbols = rest := by
  obtain ⟨c', hcall, hsyms⟩ := sockReceive_number_cut wstrerror hd (by decide) h
  refine ⟨c', ?_, hsyms⟩
  simp only [sourceUntilClosed, Bool.false_eq_true, if_false, hcall, bind, Except.bind, hclosed, if_true]
  rfl

/-- Until the connection is closed. -/
theorem pumpAll_sourceUntilClosed (hsnk : Takes snk P Q) {body : Bytes} {F : ℕ} (hF : body.length + 2 ≤ F) {w : ω}
    {s : Bytes} (hw : P w s) {err : Failure} (hclosed : socketStrerror wstrerror err.1 = bytes "closed")
    (h : c.symbols = body.map .inl ++ .inr err :: rest) :
    ∃ done c' w', pumpAll (sourceUntilClosed wstrerror) snk F ((false, c), w) = .ok (⟨true, none⟩, (done, c'), w') ∧
      Q w' (s ++ body) ∧ c'.symbols = rest := by
  induction hlen : body.length using Nat.strong_induction_on generalizing body F c w s with
  | _ n ih =>
    obtain ⟨F, rfl⟩ : ∃ k, F = k + 2 := ⟨F - 2, by omega⟩
    by_cases hshort : body.length < socketBLOCKSIZE
    · obtain ⟨c', hpiece, hsyms⟩ := sourceUntilClosed_rest hshort hclosed h
      obtain ⟨w1, htake, hP⟩ := hsnk.some hw body none
      obtain ⟨w', hend, hQ⟩ := hsnk.none hP none
      refine ⟨true, c', w', ?_, hQ, hsyms⟩
      rw [pumpAll_some hpiece htake]
      exact pumpAll_none rfl hend F
    · have hblock : 0 < socketBLOCKSIZE := by decide
      have htakelen : (body.take socketBLOCKSIZE).length = socketBLOCKSIZE := by
        rw [List.length_take]
        omega
      have hdroplen : (body.drop socketBLOCKSIZE).length = body.length - socketBLOCKSIZE := List.length_drop
      rw [← List.take_append_drop socketBLOCKSIZE body, List.map_append, List.append_assoc] at h
      obtain ⟨c1, hpiece, hsyms⟩ := sourceUntilClosed_piece wstrerror htakelen h
      obtain ⟨w1, htake, hP⟩ := hsnk.some hw (body.take socketBLOCKSIZE) none
      have hF' : (body.drop socketBLOCKSIZE).length + 2 ≤ F + 1 := by omega
      obtain ⟨done, c', w', hpump, hQ, hend⟩ := ih _ (by omega) hF' hP hsyms rfl
      refine ⟨done, c', w', ?_, ?_, hend⟩
      · rw [pumpAll_some hpiece htake]
        exact hpump
      · rw [List.append_assoc, List.take_append_drop] at hQ
        exact hQ

theorem length_chunkedText (cs : List Bytes) : cs.length + 1 ≤ (chunkedText cs).length := by
  induction cs with
  | nil =>
    rw [chunkedText, lastChunk_eq]
    decide
  | cons d cs ih =>
    have hcrlf : 2 ≤ (chunkText d).length := by
      rw [chunkText_eq, List.length_append, List.length_append]
      simp only [List.length_cons]
      omega
    rw [chunkedText_cons, List.length_append, List.length_cons]
    omega

theorem tryPump_ok {τ : Type} {src : Source τ} {fuel : ℕ} {t t' : τ} {w w' : ω}
    (h : pumpAll src snk fuel (t, w) = .ok (⟨true, none⟩, t', w')) : tryPump src snk fuel t w = .ok (t', w') := by
  unfold tryPump
  rw [h]
  rfl

theorem receivebody_sent (hsnk : Takes snk P Q) {headers : Headers} {syms : List Sym} {body : Bytes}
    (hbody : BodySent wstrerror headers rest syms body) (h : c.symbols = syms) {fuel : ℕ}
    (hfuel : syms.length + 2 ≤ fuel) {w : ω} {s : Bytes} (hw : P w s) :
    ∃ c' w', receivebody wstrerror headers snk fuel c w = .ok (c', w') ∧ Q w' (s ++ body) ∧ c'.symbols = rest := by
  unfold receivebody
  cases hbody with
  | @httpChunked cs hmode hne hmax =>
    have hlen := length_chunkedText cs
    rw [List.length_append, List.length_map] at hfuel
    obtain ⟨fuel, rfl⟩ : ∃ k, fuel = k + 1 := ⟨fuel - 1, by omega⟩
    have hF : cs.length + 1 ≤ fuel + 1 := by omega
    obtain ⟨hs', c', w', hpump, hQ, hsyms⟩ := pumpAll_sourceHttpChunked wstrerror fuel hsnk hmax hF hw
      (if (contentLength headers).isSome then .number else .nil) h
    have hall : cs.takeWhile (· ≠ []) = cs :=
      List.takeWhile_eq_self_iff.mpr fun d hd => decide_eq_true (hne d hd)
    rw [hall] at hQ
    rw [unread_eq_nil hne] at hsyms
    refine ⟨c', w', ?_, hQ, hsyms⟩
    simp only [hmode, tryPump_ok hpump]
    rfl
  | byLength hmode hmax =>
    rw [List.length_append, List.length_map] at hfuel
    have hF : body.length + 1 ≤ fuel := by omega
    obtain ⟨m, c', w', hpump, hQ, hsyms⟩ := pumpAll_sourceByLength wstrerror counts_number hsnk ⟨hmax, rfl⟩ hF hw h
    refine ⟨c', w', ?_, hQ, hsyms⟩
    simp only [hmode, tryPump_ok hpump]
    rfl
  | untilClosed hmode hclosed =>
    rw [List.length_append, List.length_map] at hfuel
    have hF : body.length + 2 ≤ fuel := by omega
    obtain ⟨done, c', w', hpump, hQ, hsyms⟩ := pumpAll_sourceUntilClosed hsnk hF hw hclosed h
    refine ⟨c', w', ?_, hQ, hsyms⟩
    simp only [hmode, tryPump_ok hpump]
    rfl

/-- The answer that comes after any others with the code 100 is the one that is returned, with its fields and
its whole body, and nothing is read of what follows it. -/
theorem response_received (hsnk : Takes snk P Q) {reqt : Request} {interim : List (StatusLine × List Field)}
    (hinterim : ∀ r ∈ interim, r.1.number = 100) {st : StatusLine} {fs : List Field} {syms : List Sym} {body : Bytes}
    (hbody : BodySent wstrerror (headersOf fs) rest syms body)
    (hreceive : shouldreceivebody reqt (some st.number) = .ok true)
    (hstay : shouldredirect reqt (some st.number) (headersOf fs) = none ∨ reqt.source = true)
    (h : c.symbols = (interim.flatMap responseText ++ responseText (st, fs)).map .inl ++ syms) {fuel : ℕ}
    (hfuel : c.symbols.length + 2 ≤ fuel) {w : ω} {s : Bytes} (hw : P w s) :
    ∃ c' w', receiveresponse wstrerror reqt snk fuel c w =
        .ok (.response (some st.number) (headersOf fs) st.text, c', w') ∧
      Q w' (s ++ body) ∧ c'.symbols = rest := by
  have hst : st.number ≠ 100 := by
    intro heq
    rw [heq] at hreceive
    unfold shouldreceivebody at hreceive
    split_ifs at hreceive
    · cases hreceive
    · simp at hreceive
  have hlen := length_fieldsText fs
  have htotal : c.symbols.length = (interim.flatMap responseText).length + (responseText (st, fs)).length +
      syms.length := by
    rw [h, List.length_append, List.length_map, List.length_append]
  have htext : (responseText (st, fs)).length = st.text.length + 2 + (fieldsText fs).length :=
    length_responseText (st, fs)
  have hinterimlen : (interim.flatMap responseText).length + 1 ≤ fuel := by omega
  have hfields : fs.length + 1 ≤ fuel := by omega
  have hbodylen : syms.length + 2 ≤ fuel := by omega
  obtain ⟨first, c1, c2, hstatus, hskip, hsyms2⟩ : ∃ first c1 c', receivestatusline wstrerror c =
      .ok ((some (StatusLine.number first), first.text), c1) ∧
      skipContinue wstrerror fuel (some first.number, first.text) c1 = .ok ((some st.number, st.text), c') ∧
      c'.symbols = (fieldsText fs).map .inl ++ syms := skipContinue_interim hinterim st hst fs hinterimlen h
  obtain ⟨c3, hheaders, hsyms3⟩ := tryHeaders_fields wstrerror fs hfields hsyms2
  obtain ⟨c4, w4, hread, hQ, hsyms4⟩ := receivebody_sent hsnk hbody hsyms3 hbodylen hw
  refine ⟨c4, w4, ?_, hQ, hsyms4⟩
  unfold receiveresponse
  simp only [hstatus, hskip, hheaders, bind, Except.bind, Option.isNone_some, Bool.false_eq_true, if_false]
  split
  next location hgo hno =>
    rw [hgo, hno] at hstay
    simp at hstay
  next => simp only [hreceive, untried, if_true, hread, pure, Except.pure]

def sampleStatus (code reason : Bytes) (h : code.length = 3 ∧ code.all ljCharIsdigit ∧ reason.all inLine) : StatusLine where
  major := [49]
  minor := [49]
  code := code
  reason := 32 :: reason
  digits := by
    have hcode := List.all_eq_true.mp h.2.1
    intro c hc
    simp only [List.cons_append, List.nil_append, List.mem_cons] at hc
    obtain rfl | rfl | hc := hc
    · rfl
    · rfl
    · exact hcode c hc
  three := h.1
  line := by
    have hreason := List.all_eq_true.mp h.2.2
    intro c hc
    obtain rfl | hc := List.mem_cons.mp hc
    · rfl
    · exact hreason c hc

def chunkedField : Field where
  name := bytes "Transfer-Encoding"
  value := bytes "chunked"
  name_line := by decide +kernel
  value_line := by decide +kernel
  unspaced := by decide +kernel

def sampleOk : StatusLine := sampleStatus (bytes "200") (bytes "OK") (by decide +kernel)

def sampleContinue : StatusLine := sampleStatus (bytes "100") (bytes "Continue") (by decide +kernel)

def sampleAnswer : Conn where
  data := [(sampleContinue, [])].flatMap responseText ++ responseText (sampleOk, [chunkedField]) ++
    chunkedText [bytes "ab", bytes "c"]
  received := 0
  sent := 0
  incoming := []
  outgoing := []
  wire := []

theorem chunkedField_mode : bodyMode (headersOf [chunkedField]) = .httpChunked := by
  rfl

theorem response_received_sample :
    ∃ c' w', receiveresponse (fun _ => []) ⟨none, true, 0, false⟩ sinkTable (sampleAnswer.symbols.length + 2)
        sampleAnswer [] = .ok (.response (some sampleOk.number) (headersOf [chunkedField]) sampleOk.text, c', w') ∧
      w'.flatten = [] ++ [bytes "ab", bytes "c"].flatten ∧ c'.symbols = [] := by
  have hinterim : ∀ r ∈ [(sampleContinue, ([] : List Field))], r.1.number = 100 := by
    intro r hr
    rw [List.mem_singleton.mp hr]
    rfl
  have hbody : BodySent (fun _ => []) (headersOf [chunkedField]) []
      ((chunkedText [bytes "ab", bytes "c"]).map .inl ++ []) [bytes "ab", bytes "c"].flatten :=
    .httpChunked chunkedField_mode (by decide +kernel) (by decide +kernel)
  have hreceive : shouldreceivebody ⟨none, true, 0, false⟩ (some sampleOk.number) = .ok true := rfl
  have hstay : shouldredirect ⟨none, true, 0, false⟩ (some sampleOk.number) (headersOf [chunkedField]) = none := rfl
  have h : sampleAnswer.symbols = ([(sampleContinue, [])].flatMap responseText ++
      responseText (sampleOk, [chunkedField])).map .inl ++ ((chunkedText [bytes "ab", bytes "c"]).map .inl ++ []) := by
    simp only [Conn.symbols, sampleAnswer, List.flatMap_nil, List.append_nil, List.map_append, List.append_assoc]
  exact response_received sinkTable_takes hinterim hbody hreceive (.inl hstay) h (le_refl _) rfl

end Answers

/-! ## The fields of a request -/

section Sent
variable {wstrerror : ℤ → Bytes}

theorem foldl_fields (fs : List Field) (h : Bytes) :
    (fs.map fun f => (f.name, f.value)).foldl (fun h (i, v) => i ++ bytes ": " ++ v ++ bytes "\r\n" ++ h) h =
      fs.reverse.flatMap (fun f => f.text ++ [13, 10]) ++ h := by
  induction fs generalizing h with
  | nil => rfl
  | cons f fs ih =>
    rw [List.map_cons, List.foldl_cons, ih, List.reverse_cons, List.flatMap_append, List.flatMap_singleton,
      List.append_assoc, crlf]
    rfl

/-- With names that differ in more than their letters' case, a field's value is alone under its name. -/
theorem valuesOf_distinct {fs : List Field} (hdistinct : (fs.map fun f => lower f.name).Nodup) {f : Field}
    (hf : f ∈ fs) : valuesOf fs (lower f.name) = [f.value] := by
  induction fs with
  | nil => exact absurd hf (List.not_mem_nil)
  | cons g fs ih =>
    obtain ⟨hnew, hdistinct'⟩ := List.nodup_cons.mp hdistinct
    obtain rfl | hf := List.mem_cons.mp hf
    · have hnone : fs.filter (fun g => lower g.name = lower f.name) = [] := by
        apply List.filter_eq_nil_iff.mpr
        intro g hg heq
        exact hnew (List.mem_map.mpr ⟨g, hg, of_decide_eq_true heq⟩)
      rw [valuesOf, List.filter_cons_of_pos (by simp), hnone]
      rfl
    · have hne : lower g.name ≠ lower f.name := fun heq => hnew (List.mem_map.mpr ⟨f, hf, heq.symm⟩)
      rw [valuesOf, List.filter_cons_of_neg (by simpa using hne)]
      exact ih hdistinct' hf

/-- The fields of a request are found again by whoever reads them with `receiveheaders`, each under its name in
small letters, and nothing else is. -/
theorem headers_delivered {fs : List Field} (hdistinct : (fs.map fun f => lower f.name).Nodup) {c : Conn}
    (hroom : Steady c (fieldsText fs.reverse).length) :
    ∃ c' sent, sendheaders wstrerror (fs.map fun f => (f.name, f.value)) c = .ok (⟨true, none⟩, c') ∧
      c'.wire = c.wire ++ sent ∧
      ∀ (d : Conn) (rest : List Sym) (fuel : ℕ), d.symbols = sent.map .inl ++ rest → fs.length + 1 ≤ fuel →
        ∃ t d', receiveheaders wstrerror fuel .nil d = .ok (.ok (.table t), d') ∧ d'.symbols = rest ∧
          (∀ f ∈ fs, t (lower f.name) = some f.value) ∧
          ∀ name, (∀ f ∈ fs, lower f.name ≠ name) → t name = none := by
  have htext : (fs.map fun f => (f.name, f.value)).foldl
      (fun h (i, v) => i ++ bytes ": " ++ v ++ bytes "\r\n" ++ h) (bytes "\r\n") = fieldsText fs.reverse := by
    rw [foldl_fields, crlf]
    rfl
  have hroom' : Steady c ((fieldsText fs.reverse).length + 0) := hroom
  obtain ⟨c', hcall, hwire, -⟩ := sockSend_steady wstrerror hroom'
  refine ⟨c', fieldsText fs.reverse, ?_, hwire, ?_⟩
  · rw [sendheaders, htext]
    exact hcall
  · intro d rest fuel h hfuel
    have hfuel' : fs.reverse.length + 1 ≤ fuel := by
      rw [List.length_reverse]
      exact hfuel
    obtain ⟨d', hread, hsyms⟩ := receiveheaders_fields wstrerror fs.reverse hfuel' h
    have hdistinct' : (fs.reverse.map fun f => lower f.name).Nodup := by
      rw [List.map_reverse, List.nodup_reverse]
      exact hdistinct
    refine ⟨headersOf fs.reverse, d', hread, hsyms, ?_, ?_⟩
    · intro f hf
      have hvalues := valuesOf_distinct hdistinct' (List.mem_reverse.mpr hf)
      have hne : valuesOf fs.reverse (lower f.name) ≠ [] := by simp [hvalues]
      rw [headersOf_some hne, hvalues, List.intercalate_singleton]
    · intro name hname
      apply headersOf_nil
      have hnone : fs.reverse.filter (fun f => lower f.name = name) = [] := by
        apply List.filter_eq_nil_iff.mpr
        intro f hf heq
        exact hname f (List.mem_reverse.mp hf) (of_decide_eq_true heq)
      rw [valuesOf, hnone]
      rfl

theorem headers_delivered_sample :
    ∃ c' sent, sendheaders (fun _ => []) ([chunkedField].map fun f => (f.name, f.value)) (takingConn 30) =
        .ok (⟨true, none⟩, c') ∧
      c'.wire = [] ++ sent ∧
      ∀ (d : Conn) (rest : List Sym) (fuel : ℕ), d.symbols = sent.map .inl ++ rest →
        [chunkedField].length + 1 ≤ fuel →
        ∃ t d', receiveheaders (fun _ => []) fuel .nil d = .ok (.ok (.table t), d') ∧ d'.symbols = rest ∧
          (∀ f ∈ [chunkedField], t (lower f.name) = some f.value) ∧
          ∀ name, (∀ f ∈ [chunkedField], lower f.name ≠ name) → t name = none :=
  have hlen : (fieldsText [chunkedField].reverse).length = 30 := by decide +kernel
  headers_delivered (by decide +kernel) (hlen ▸ takingConn_steady 30)

end Sent

end LuaTT.Http
