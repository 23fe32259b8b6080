import Mathlib.Data.List.Basic

/-! Verdicts over a list of voters some of whom fail. For a voter who fails something is read all the
same; a combination rule is sound on a list if these stray values do not change what it makes of the
answers. For three rules the lists on which it is sound are characterised. -/
namespace LuaTT.Voting
set_option autoImplicit false

/-- The answer of a voter, or the value read in place of one. -/
inductive Ballot (α : Type)
  | answer (v : α)
  | stray (v : α)

variable {α β : Type}

def Ballot.value : Ballot α → α
  | answer v => v
  | stray v => v

def values (bs : List (Ballot α)) : List α := bs.map Ballot.value

def answers : List (Ballot α) → List α
  | [] => []
  | .answer v :: bs => v :: answers bs
  | .stray _ :: bs => answers bs

def strays : List (Ballot α) → List α
  | [] => []
  | .answer _ :: bs => strays bs
  | .stray v :: bs => v :: strays bs

theorem answers_append (bs cs : List (Ballot α)) : answers (bs ++ cs) = answers bs ++ answers cs := by
  induction bs with
  | nil => rfl
  | cons b bs ih => cases b <;> simp [answers, ih]

theorem mem_values {v : α} {bs : List (Ballot α)} :
    v ∈ values bs ↔ v ∈ answers bs ∨ v ∈ strays bs := by
  induction bs with
  | nil => simp [values, answers, strays]
  | cons b bs ih =>
    rw [values, List.map_cons, List.mem_cons, ← values, ih]
    cases b <;> simp [answers, strays, Ballot.value, or_assoc, or_left_comm]

/-! ## One veto is enough -/

/-- An answer is a veto, or no stray value is one. -/
def VetoAgrees (pass : α → Bool) (bs : List (Ballot α)) : Prop :=
  (∃ v ∈ answers bs, pass v = false) ∨ ∀ v ∈ strays bs, pass v = true

theorem all_values_eq (pass : α → Bool) (bs : List (Ballot α)) :
    (values bs).all pass = (answers bs).all pass ↔ VetoAgrees pass bs := by
  rw [Bool.eq_iff_iff, List.all_eq_true, List.all_eq_true]
  constructor
  · intro h
    by_cases hv : ∃ v ∈ answers bs, pass v = false
    · exact .inl hv
    · simp only [not_exists, not_and, Bool.not_eq_false] at hv
      exact .inr fun v hs => h.mpr hv v (mem_values.mpr (.inr hs))
  · rintro (⟨v, hv, hveto⟩ | hs)
    · constructor
      · intro h
        exact fun w hw => h w (mem_values.mpr (.inl hw))
      · intro h
        rw [h v hv] at hveto
        cases hveto
    · refine ⟨fun h w hw => h w (mem_values.mpr (.inl hw)), fun h w hw => ?_⟩
      exact (mem_values.mp hw).elim (h w) (hs w)

/-! ## The first choice counts -/

def firstPick (pick : α → Option β) (ret : β) (vs : List α) : β := (vs.findSome? pick).getD ret

theorem firstPick_cons_some {pick : α → Option β} {ret x : β} {v : α} (vs : List α)
    (h : pick v = some x) : firstPick pick ret (v :: vs) = x := by
  simp [firstPick, h]

theorem firstPick_cons_none {pick : α → Option β} {ret : β} {v : α} (vs : List α)
    (h : pick v = none) : firstPick pick ret (v :: vs) = firstPick pick ret vs := by
  simp [firstPick, h]

/-- A stray choice that nothing comes before is what the answers after it give. -/
def FirstAgrees (pick : α → Option β) (ret : β) (bs : List (Ballot α)) : Prop :=
  ∀ l v l', bs = l ++ .stray v :: l' → (∀ w ∈ values l, pick w = none) →
    ∀ x, pick v = some x → x = firstPick pick ret (answers l')

section Cons
variable {pick : α → Option β} {ret : β} {b : Ballot α} {bs : List (Ballot α)}

theorem firstAgrees_cons_some (hb : (pick b.value).isSome) :
    FirstAgrees pick ret (b :: bs) ↔
      ∀ v, b = .stray v → ∀ x, pick v = some x → x = firstPick pick ret (answers bs) := by
  constructor
  · intro h v hv
    exact h [] v bs (by rw [hv]; rfl) fun _ hw => absurd hw List.not_mem_nil
  · intro h l v l' hl hnone
    rcases List.cons_eq_append_iff.mp hl with ⟨rfl, hc⟩ | ⟨m, rfl, _⟩
    · obtain ⟨rfl, rfl⟩ := List.cons.inj hc
      exact h v rfl
    · have hn := hnone b.value List.mem_cons_self
      simp [hn] at hb

theorem firstAgrees_cons_none (hb : pick b.value = none) :
    FirstAgrees pick ret (b :: bs) ↔ FirstAgrees pick ret bs := by
  constructor
  · intro h l v l' hl hnone
    apply h (b :: l) v l' (by rw [hl]; rfl)
    intro w hw
    rcases List.mem_cons.mp hw with rfl | hw
    · exact hb
    · exact hnone w hw
  · intro h l v l' hl hnone x hx
    rcases List.cons_eq_append_iff.mp hl with ⟨rfl, hc⟩ | ⟨m, rfl, hm⟩
    · obtain ⟨rfl, rfl⟩ := List.cons.inj hc
      rw [Ballot.value, hx] at hb
      cases hb
    · exact h m v l' hm (fun w hw => hnone w (List.mem_cons_of_mem _ hw)) x hx

end Cons

theorem firstPick_values_eq (pick : α → Option β) (ret : β) (bs : List (Ballot α)) :
    firstPick pick ret (values bs) = firstPick pick ret (answers bs) ↔ FirstAgrees pick ret bs := by
  induction bs with
  | nil => exact ⟨fun _ l v l' hl => by simp at hl, fun _ => rfl⟩
  | cons b bs ih =>
    have hvalues : values (b :: bs) = b.value :: values bs := rfl
    cases hp : pick b.value with
    | some x =>
      rw [hvalues, firstPick_cons_some _ hp, firstAgrees_cons_some (by rw [hp]; rfl)]
      cases b with
      | answer v =>
        have hv : pick v = some x := hp
        rw [answers, firstPick_cons_some _ hv]
        exact iff_of_true rfl fun _ h => by cases h
      | stray v =>
        rw [answers]
        constructor
        · rintro rfl w hw x hx
          obtain rfl := Ballot.stray.inj hw
          rw [Ballot.value, hx] at hp
          exact Option.some.inj hp
        · exact fun h => h v rfl x hp
    | none =>
      rw [hvalues, firstPick_cons_none _ hp, firstAgrees_cons_none hp, ← ih]
      cases b with
      | answer v =>
        have hv : pick v = none := hp
        rw [answers, firstPick_cons_none _ hv]
      | stray v => rw [answers]

/-! ## The last choice counts -/

def lastPick (pick : α → Option β) (ret : β) (vs : List α) : β :=
  vs.foldl (fun ret v => (pick v).getD ret) ret

theorem lastPick_eq_firstPick (pick : α → Option β) (ret : β) (vs : List α) :
    lastPick pick ret vs = firstPick pick ret vs.reverse := by
  induction vs generalizing ret with
  | nil => rfl
  | cons v vs ih =>
    rw [lastPick, List.foldl_cons, ← lastPick, ih]
    simp only [firstPick, List.reverse_cons, List.findSome?_append]
    cases vs.reverse.findSome? pick <;> cases hv : pick v <;> simp [hv]

/-- A stray choice that nothing comes after is what the answers before it give. -/
def LastAgrees (pick : α → Option β) (ret : β) (bs : List (Ballot α)) : Prop :=
  ∀ l v l', bs = l ++ .stray v :: l' → (∀ w ∈ values l', pick w = none) →
    ∀ x, pick v = some x → x = lastPick pick ret (answers l)

theorem values_reverse (bs : List (Ballot α)) : (values bs).reverse = values bs.reverse :=
  List.map_reverse.symm

theorem answers_reverse (bs : List (Ballot α)) : (answers bs).reverse = answers bs.reverse := by
  induction bs with
  | nil => rfl
  | cons b bs ih => cases b <;> simp [answers, answers_append, ih]

theorem lastAgrees_iff (pick : α → Option β) (ret : β) (bs : List (Ballot α)) :
    LastAgrees pick ret bs ↔ FirstAgrees pick ret bs.reverse := by
  constructor
  · intro h l v l' hl hnone x hx
    have hbs : bs = l'.reverse ++ .stray v :: l.reverse := by
      rw [← List.reverse_reverse bs, hl]
      simp
    have hx' := h _ v _ hbs (fun w hw => hnone w (by simpa [← values_reverse] using hw)) x hx
    rw [hx', lastPick_eq_firstPick, answers_reverse, List.reverse_reverse]
  · intro h l v l' hl hnone x hx
    have hbs : bs.reverse = l'.reverse ++ .stray v :: l.reverse := by simp [hl]
    have hx' := h _ v _ hbs (fun w hw => hnone w (by simpa [← values_reverse] using hw)) x hx
    rw [hx', lastPick_eq_firstPick, answers_reverse]

theorem lastPick_values_eq (pick : α → Option β) (ret : β) (bs : List (Ballot α)) :
    lastPick pick ret (values bs) = lastPick pick ret (answers bs) ↔ LastAgrees pick ret bs := by
  rw [lastPick_eq_firstPick, lastPick_eq_firstPick, values_reverse, answers_reverse,
    firstPick_values_eq, lastAgrees_iff]

end LuaTT.Voting
