import Mathlib.Logic.Function.Basic
import Mathlib.Data.List.Basic

/-! A map from keys to objects beside a list of the objects it is meant to find. An insertion keeps the two
together unless its key is taken. Nothing here names a particular program. -/
namespace LuaTT.KeyedIndex
set_option autoImplicit false

variable {κ α : Type*}

/-- The map finds each object of the list at its key, and nothing else. -/
def Indexes (key : α → κ) (m : κ → Option α) (l : List α) : Prop :=
  ∀ k o, m k = some o ↔ o ∈ l ∧ key o = k

/-- The objects of the map are those of the list. -/
def Knows (m : κ → Option α) (l : List α) : Prop := ∀ o, (∃ k, m k = some o) ↔ o ∈ l

variable {key : α → κ} {m : κ → Option α} {l l' : List α} {o o' : α}

theorem Indexes.nil : Indexes key (fun _ => none) [] := by
  intro k o
  simp

theorem Indexes.knows (h : Indexes key m l) : Knows m l := by
  intro o
  constructor
  · rintro ⟨k, hk⟩
    exact ((h k o).mp hk).1
  · intro ho
    exact ⟨key o, (h _ o).mpr ⟨ho, rfl⟩⟩

/-- Keys of different objects differ. -/
theorem Indexes.eq_of_key (h : Indexes key m l) (ho : o ∈ l) (ho' : o' ∈ l) (hk : key o = key o') :
    o = o' := by
  have hat := (h (key o) o).mpr ⟨ho, rfl⟩
  have hat' := (h (key o) o').mpr ⟨ho', hk.symm⟩
  exact Option.some.inj (hat.symm.trans hat')

theorem ne_of_absent {k k' : κ} (h : m k = none) (h' : m k' = some o) : k ≠ k' := by
  rintro rfl
  rw [h] at h'
  cases h'

variable [DecidableEq κ]

/-- What the map finds after an entry has been written. -/
theorem update_some_iff {k x : κ} {v : α} :
    Function.update m k (some v) x = some o ↔ x = k ∧ o = v ∨ x ≠ k ∧ m x = some o := by
  by_cases he : x = k
  · subst he
    simp [eq_comm]
  · simp [he]

theorem update_none_iff {k x : κ} : Function.update m k none x = some o ↔ x ≠ k ∧ m x = some o := by
  by_cases he : x = k
  · subst he
    simp
  · simp [he]

theorem update_of_ne_eq_some {k x : κ} {v : Option α} (hne : x ≠ k) (h : m x = some o) :
    Function.update m k v x = some o := (Function.update_of_ne hne _ _).trans h

/-- The first object of a name is the only one where names differ. -/
theorem mem_eraseP_iff {name : α → κ} (hl : (l.map name).Nodup) (ho : o ∈ l) :
    o' ∈ l.eraseP (fun x => name x = name o) ↔ o' ∈ l ∧ o' ≠ o := by
  induction l with
  | nil => exact absurd ho List.not_mem_nil
  | cons x l ih =>
    rw [List.map_cons, List.nodup_cons] at hl
    obtain ⟨hx, hl⟩ := hl
    by_cases hname : name x = name o
    · have hxo : o = x := by
        rcases List.mem_cons.mp ho with he | ho
        · exact he
        · exact absurd (hname ▸ List.mem_map_of_mem ho) hx
      subst hxo
      rw [List.eraseP_cons_of_pos (by simp), List.mem_cons]
      constructor
      · intro ho'
        refine ⟨.inr ho', ?_⟩
        rintro rfl
        exact hx (List.mem_map_of_mem ho')
      · rintro ⟨rfl | ho', hne⟩
        · exact absurd rfl hne
        · exact ho'
    · have hxo : x ≠ o := fun he => hname (congrArg name he)
      have ho' : o ∈ l := (List.mem_cons.mp ho).resolve_left hxo.symm
      rw [List.eraseP_cons_of_neg (by simpa using hname), List.mem_cons, List.mem_cons, ih hl ho']
      constructor
      · rintro (rfl | ⟨hmem, hne⟩)
        · exact ⟨.inl rfl, hxo⟩
        · exact ⟨.inr hmem, hne⟩
      · rintro ⟨rfl | hmem, hne⟩
        · exact .inl rfl
        · exact .inr ⟨hmem, hne⟩

theorem Indexes.insert (h : Indexes key m l) (hnew : m (key o) = none) :
    Indexes key (Function.update m (key o) (some o)) (l ++ [o]) := by
  intro k o'
  rw [update_some_iff, h k o', List.mem_append, List.mem_singleton]
  constructor
  · rintro (⟨rfl, rfl⟩ | ⟨_, hmem, hkey⟩)
    · exact ⟨.inr rfl, rfl⟩
    · exact ⟨.inl hmem, hkey⟩
  · rintro ⟨hmem | rfl, rfl⟩
    · have hfound := (h _ o').mpr ⟨hmem, rfl⟩
      exact .inr ⟨(ne_of_absent hnew hfound).symm, hmem, rfl⟩
    · exact .inl ⟨rfl, rfl⟩

/-- An object whose key is taken over is in the list only. -/
theorem Indexes.not_knows_of_taken (h : Indexes key m l) (hold : m (key o) = some o') (hne : o' ≠ o) :
    ¬ Knows (Function.update m (key o) (some o)) (l ++ [o]) := by
  intro hknows
  obtain ⟨hmem, hkey⟩ := (h _ o').mp hold
  obtain ⟨k, hk⟩ := (hknows o').mpr (List.mem_append_left _ hmem)
  rcases update_some_iff.mp hk with ⟨_, he⟩ | ⟨hk', hfound⟩
  · exact hne he
  · exact hk' (((h k o').mp hfound).2.symm.trans hkey)

theorem Indexes.erase (h : Indexes key m l) (ho : o ∈ l) (hl : ∀ o', o' ∈ l' ↔ o' ∈ l ∧ o' ≠ o) :
    Indexes key (Function.update m (key o) none) l' := by
  intro k o'
  rw [hl, update_none_iff, h k o']
  constructor
  · rintro ⟨hk, hmem, hkey⟩
    refine ⟨⟨hmem, ?_⟩, hkey⟩
    rintro rfl
    exact hk hkey.symm
  · rintro ⟨⟨hmem, hne⟩, hkey⟩
    refine ⟨?_, hmem, hkey⟩
    rintro rfl
    exact hne (h.eq_of_key hmem ho hkey)

end LuaTT.KeyedIndex
