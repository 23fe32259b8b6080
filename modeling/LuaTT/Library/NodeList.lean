import Mathlib.Data.List.Basic
import Mathlib.Data.Nat.Notation

/-! A doubly linked list whose nodes have addresses, as `std::list` has. An iterator is the address of
a node. Erase-remove moves the kept elements forward into the first nodes and frees the last ones, so
an iterator can end up at another element, or at a freed node. -/
namespace LuaTT.NodeList
set_option autoImplicit false

structure Node (α : Type) where
  addr : ℕ
  obj : α

variable {α : Type}

def objs (l : List (Node α)) : List α := l.map Node.obj

def addrs (l : List (Node α)) : List ℕ := l.map Node.addr

/-- `*it`: `none` where no node of the list has that address. -/
def deref (l : List (Node α)) (a : ℕ) : Option α := (l.find? (·.addr = a)).map Node.obj

/-- `std::find_if`. -/
def findIf (q : α → Bool) (l : List (Node α)) : Option (Node α) := l.find? fun nd => q nd.obj

/-- `l.erase(std::remove_if(l.begin(), l.end(), p), l.end())`. -/
def eraseIf (p : α → Bool) (l : List (Node α)) : List (Node α) :=
  List.zipWith (fun nd x => ⟨nd.addr, x⟩) l ((objs l).filter fun x => !p x)

/-- Changes the first element that meets `q` in place. -/
def modifyFirst (q : α → Bool) (f : α → α) : List (Node α) → List (Node α)
  | [] => []
  | nd :: l => if q nd.obj then ⟨nd.addr, f nd.obj⟩ :: l else nd :: modifyFirst q f l

/-- Every element up to the node at `a` fails `p`. -/
def KeptThrough (p : α → Bool) (a : ℕ) : List (Node α) → Prop
  | [] => True
  | nd :: l => p nd.obj = false ∧ (nd.addr = a ∨ KeptThrough p a l)

instance decidableKeptThrough (p : α → Bool) (a : ℕ) :
    ∀ l : List (Node α), Decidable (KeptThrough p a l)
  | [] => isTrue trivial
  | _ :: l =>
    have := decidableKeptThrough p a l
    inferInstanceAs (Decidable (_ ∧ _))

/-! ## Elements and addresses -/

@[simp] theorem objs_append (l m : List (Node α)) : objs (l ++ m) = objs l ++ objs m := by
  simp [objs]

@[simp] theorem addrs_append (l m : List (Node α)) : addrs (l ++ m) = addrs l ++ addrs m := by
  simp [addrs]

theorem mem_objs {l : List (Node α)} {x : α} : x ∈ objs l ↔ ∃ nd ∈ l, nd.obj = x := by
  simp [objs]

@[simp] theorem objs_eraseIf (p : α → Bool) (l : List (Node α)) :
    objs (eraseIf p l) = (objs l).filter fun x => !p x := by
  have hlen : ((objs l).filter fun x => !p x).length ≤ l.length := by
    have h := List.length_filter_le (fun x => !p x) (objs l)
    simpa [objs] using h
  unfold eraseIf
  generalize (objs l).filter (fun x => !p x) = kept at hlen ⊢
  induction l generalizing kept with
  | nil =>
    have hk : kept = [] := by simpa using hlen
    subst hk
    rfl
  | cons nd l ih =>
    cases kept with
    | nil => rfl
    | cons x kept =>
      have hx : kept.length ≤ l.length := by simpa using hlen
      have ht := ih kept hx
      simp only [objs, List.zipWith_cons_cons, List.map_cons] at ht ⊢
      rw [ht]

theorem addrs_eraseIf (p : α → Bool) (l : List (Node α)) : addrs (eraseIf p l) <+: addrs l := by
  unfold eraseIf
  generalize (objs l).filter (fun x => !p x) = kept
  induction l generalizing kept with
  | nil => simp [addrs]
  | cons nd l ih =>
    cases kept with
    | nil => simp [addrs]
    | cons x kept => simpa [addrs] using ih kept

theorem eraseIf_cons_kept {p : α → Bool} {nd : Node α} (h : p nd.obj = false) (l : List (Node α)) :
    eraseIf p (nd :: l) = nd :: eraseIf p l := by
  simp [eraseIf, objs, h]

@[simp] theorem addrs_modifyFirst (q : α → Bool) (f : α → α) (l : List (Node α)) :
    addrs (modifyFirst q f l) = addrs l := by
  induction l with
  | nil => rfl
  | cons nd l ih =>
    unfold modifyFirst
    split_ifs
    · rfl
    · simpa [addrs] using ih

theorem map_modifyFirst {β : Type} (g : α → β) {q : α → Bool} {f : α → α}
    (hg : ∀ x, g (f x) = g x) (l : List (Node α)) :
    (objs (modifyFirst q f l)).map g = (objs l).map g := by
  induction l with
  | nil => rfl
  | cons nd l ih =>
    unfold modifyFirst
    split_ifs
    · simp [objs, hg]
    · simpa [objs] using ih

theorem mem_modifyFirst {κ : Type} [DecidableEq κ] {key : α → κ} {k : κ} {f : α → α}
    {l : List (Node α)} (hn : ((objs l).map key).Nodup) {y : α}
    (h : y ∈ objs (modifyFirst (fun x => key x = k) f l)) :
    y ∈ objs l ∧ key y ≠ k ∨ ∃ x ∈ objs l, key x = k ∧ y = f x := by
  induction l with
  | nil => simp [modifyFirst, objs] at h
  | cons nd l ih =>
    rw [objs, List.map_cons, List.map_cons, List.nodup_cons] at hn
    unfold modifyFirst at h
    split_ifs at h with hq
    · rcases List.mem_cons.mp h with h | h
      · exact .inr ⟨nd.obj, by simp [objs], by simpa using hq, h⟩
      · refine .inl ⟨List.mem_cons_of_mem _ h, fun hk => hn.1 ?_⟩
        rw [show key nd.obj = key y by simpa [hk] using hq]
        exact List.mem_map_of_mem h
    · rcases List.mem_cons.mp h with h | h
      · exact .inl ⟨by simp [objs, h], by simpa [h] using hq⟩
      · rcases ih hn.2 h with ⟨hy, hk⟩ | ⟨x, hx, hk, hy⟩
        · exact .inl ⟨List.mem_cons_of_mem _ hy, hk⟩
        · exact .inr ⟨x, List.mem_cons_of_mem _ hx, hk, hy⟩

/-! ## Iterators -/

theorem deref_mem {l : List (Node α)} {a : ℕ} {x : α} (h : deref l a = some x) : x ∈ objs l := by
  obtain ⟨nd, hnd, rfl⟩ := Option.map_eq_some_iff.mp h
  exact mem_objs.mpr ⟨nd, List.mem_of_find?_eq_some hnd, rfl⟩

theorem deref_eq {l : List (Node α)} (hn : (addrs l).Nodup) {nd : Node α} (h : nd ∈ l) :
    deref l nd.addr = some nd.obj := by
  induction l with
  | nil => simp at h
  | cons m l ih =>
    rw [addrs, List.map_cons, List.nodup_cons] at hn
    rcases List.mem_cons.mp h with rfl | h
    · simp [deref]
    · have hne : m.addr ≠ nd.addr := by
        intro he
        exact hn.1 (he ▸ List.mem_map_of_mem h)
      simpa [deref, hne] using ih hn.2 h

theorem deref_push {l : List (Node α)} {a : ℕ} {x : α} (m : Node α) (h : deref l a = some x) :
    deref (l ++ [m]) a = some x := by
  obtain ⟨nd, hnd, rfl⟩ := Option.map_eq_some_iff.mp h
  simp [deref, hnd]

theorem deref_eraseIf {p : α → Bool} {l : List (Node α)} {a : ℕ} (h : KeptThrough p a l) :
    deref (eraseIf p l) a = deref l a := by
  induction l with
  | nil => rfl
  | cons nd l ih =>
    rw [eraseIf_cons_kept h.1]
    by_cases ha : nd.addr = a
    · simp [deref, ha]
    · simpa [deref, ha] using ih (h.2.resolve_left ha)

theorem deref_modifyFirst {β : Type} (g : α → β) {q : α → Bool} {f : α → α}
    (hg : ∀ x, g (f x) = g x) (l : List (Node α)) (a : ℕ) :
    (deref (modifyFirst q f l) a).map g = (deref l a).map g := by
  induction l with
  | nil => rfl
  | cons nd l ih =>
    unfold modifyFirst
    by_cases ha : nd.addr = a <;> split_ifs
    · simp [deref, ha, hg]
    · simp [deref, ha]
    · simp [deref, ha]
    · simpa [deref, ha] using ih

end LuaTT.NodeList
