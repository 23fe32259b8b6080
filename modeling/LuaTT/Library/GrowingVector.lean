import Mathlib.Data.List.Basic

/-! A growing vector and the range loops over it. A loop holds its iterators from the start on; an append
within the capacity leaves them in place, any other change of the vector ends their use. Nothing here
names a particular program. -/
namespace LuaTT.GrowingVector
set_option autoImplicit false

structure Storage (α : Type*) where
  items : List α
  capacity : ℕ
  /-- How often the items have moved, so that what pointed to them no longer does. -/
  generation : ℕ
  fits : items.length ≤ capacity

/-- A place in the storage of one generation. -/
structure Iterator where
  generation : ℕ
  index : ℕ

variable {α : Type*}

namespace Storage
variable (v : Storage α)

def empty : Storage α := ⟨[], 0, 0, Nat.le_refl 0⟩

def first : Iterator := ⟨v.generation, 0⟩

def last : Iterator := ⟨v.generation, v.items.length⟩

/-- `grow` is the capacity that the library asks for; there is always room for the new item. -/
def pushBack (grow : ℕ → ℕ) (x : α) : Storage α :=
  if h : v.items.length < v.capacity then
    { v with items := v.items ++ [x], fits := by simpa using Nat.succ_le_of_lt h }
  else
    { items := v.items ++ [x]
      capacity := max (grow v.capacity) (v.items.length + 1)
      generation := v.generation + 1
      fits := Nat.le_trans (Nat.le_of_eq List.length_append) (Nat.le_max_right _ _) }

def erase (i : ℕ) : Storage α :=
  { v with
    items := v.items.eraseIdx i
    generation := v.generation + 1
    fits := Nat.le_trans (List.length_eraseIdx_le _ _) v.fits }

def clear : Storage α :=
  { v with items := [], generation := v.generation + 1, fits := Nat.zero_le _ }

@[simp] theorem pushBack_items (grow : ℕ → ℕ) (x : α) : (v.pushBack grow x).items = v.items ++ [x] := by
  unfold pushBack
  split <;> rfl

theorem nodup_erase {v : Storage α} (hv : v.items.Nodup) (i : ℕ) : (v.erase i).items.Nodup :=
  hv.eraseIdx i

theorem mem_erase_iff {v : Storage α} {i : ℕ} {x y : α} (hv : v.items.Nodup) (hi : v.items[i]? = some x) :
    y ∈ (v.erase i).items ↔ y ∈ v.items ∧ y ≠ x := by
  classical
  obtain ⟨hlt, hx⟩ := List.getElem?_eq_some_iff.mp hi
  have hidx : v.items.idxOf x = i := by
    rw [← hx]
    exact hv.idxOf_getElem i hlt
  have herase : (v.erase i).items = v.items.erase x := (List.erase_eq_eraseIdx_of_idxOf hidx).symm
  rw [herase, hv.mem_erase_iff]
  exact and_comm

theorem pushBack_generation (grow : ℕ → ℕ) (x : α) : (v.pushBack grow x).generation =
    if v.items.length < v.capacity then v.generation else v.generation + 1 := by
  unfold pushBack
  split_ifs <;> rfl

end Storage

/-! ## Range loops -/

/-- A loop over all items, with the two iterators it works on. -/
structure RangeLoop (α : Type*) where
  it : Iterator
  last : Iterator
  /-- The items when the loop was started. -/
  start : List α
  /-- What has been handed to the body, first to last. -/
  visited : List α
  inBody : Bool

namespace RangeLoop
variable (l : RangeLoop α) (v : Storage α)

def begin : RangeLoop α := ⟨v.first, v.last, v.items, [], false⟩

/-- The iterators are those of the storage as it is now. -/
def Usable : Prop := l.it.generation = v.generation ∧ l.last.generation = v.generation

instance : Decidable (l.Usable v) := inferInstanceAs (Decidable (_ ∧ _))

def atEnd : Bool := l.it.index = l.last.index

def enter : Option (RangeLoop α) :=
  if l.inBody ∨ l.atEnd then none
  else v.items[l.it.index]?.map fun x => { l with visited := l.visited ++ [x], inBody := true }

def advance : RangeLoop α := { l with it := { l.it with index := l.it.index + 1 }, inBody := false }

/-- How many items the body has got. -/
def reached : ℕ := l.it.index + if l.inBody then 1 else 0

/-- The loop is where it would be over the items as they were at its start. -/
structure Tracks : Prop where
  usable : l.Usable v
  present : l.start <+: v.items
  size : l.last.index = l.start.length
  visited : l.visited = l.start.take l.reached
  within : l.reached ≤ l.start.length

variable {l v}

theorem tracks_begin : (begin v).Tracks v where
  usable := ⟨rfl, rfl⟩
  present := List.prefix_rfl
  size := rfl
  visited := rfl
  within := Nat.zero_le _

theorem Tracks.visited_prefix (h : l.Tracks v) : l.visited <+: l.start := by
  rw [h.visited]
  exact List.take_prefix _ _

/-- An append within the capacity leaves the loop as it is. -/
theorem Tracks.pushBack (h : l.Tracks v) (grow : ℕ → ℕ) (x : α) (hroom : v.items.length < v.capacity) :
    l.Tracks (v.pushBack grow x) where
  usable := by
    have hgen : (v.pushBack grow x).generation = v.generation := by
      rw [Storage.pushBack_generation, if_pos hroom]
    unfold Usable
    rw [hgen]
    exact h.usable
  present := by
    rw [Storage.pushBack_items]
    exact h.present.trans (List.prefix_append _ _)
  size := h.size
  visited := h.visited
  within := h.within

/-- A change that moves the items leaves the loop with iterators it may not use. -/
theorem Tracks.not_usable_of_moved {v' : Storage α} (h : l.Tracks v)
    (hmoved : v'.generation = v.generation + 1) : ¬ l.Usable v' := by
  intro hu
  have hold := h.usable.1
  have hnew := hu.1
  omega

theorem enter_start {l' : RangeLoop α} (he : l.enter v = some l') : l'.start = l.start := by
  unfold RangeLoop.enter at he
  split_ifs at he
  obtain ⟨x, _, rfl⟩ := Option.map_eq_some_iff.mp he
  rfl

theorem enter_visited {l' : RangeLoop α} (he : l.enter v = some l') :
    l.inBody = false ∧ l'.inBody = true ∧ ∃ x ∈ v.items, l'.visited = l.visited ++ [x] := by
  unfold RangeLoop.enter at he
  split_ifs at he with hc
  obtain ⟨hbody, _⟩ := not_or.mp hc
  obtain ⟨x, hx, rfl⟩ := Option.map_eq_some_iff.mp he
  exact ⟨by simpa using hbody, rfl, x, List.mem_of_getElem? hx, rfl⟩

theorem Tracks.enter {l' : RangeLoop α} (h : l.Tracks v) (he : l.enter v = some l') : l'.Tracks v := by
  unfold RangeLoop.enter at he
  split_ifs at he with hc
  obtain ⟨hbody, hend⟩ := not_or.mp hc
  obtain ⟨x, hx, rfl⟩ := Option.map_eq_some_iff.mp he
  have hreached : l.reached = l.it.index := by simp [reached, hbody]
  have hlt : l.it.index < l.start.length := by
    have hne : l.it.index ≠ l.last.index := by simpa [atEnd] using hend
    have hle := h.within
    have hsize := h.size
    omega
  have hget : l.start[l.it.index]? = some x := by
    rw [← hx, List.prefix_iff_getElem?.mp h.present _ hlt]
    exact List.getElem?_eq_getElem hlt
  refine ⟨h.usable, h.present, h.size, ?_, ?_⟩
  · simp only [reached, if_true]
    rw [h.visited, hreached, List.take_add_one, hget]
    rfl
  · simp only [reached, if_true]
    omega

theorem Tracks.advance (h : l.Tracks v) (hbody : l.inBody = true) : l.advance.Tracks v := by
  have hreached : l.advance.reached = l.reached := by simp [reached, RangeLoop.advance, hbody]
  refine ⟨h.usable, h.present, h.size, ?_, ?_⟩
  · rw [hreached]
    exact h.visited
  · rw [hreached]
    exact h.within

/-- At its end a loop has handed every item it started with to its body. -/
theorem Tracks.finished (h : l.Tracks v) (hbody : l.inBody = false) (hend : l.atEnd = true) :
    l.visited = l.start := by
  have hplace : l.it.index = l.last.index := by simpa [atEnd] using hend
  have hreached : l.reached = l.start.length := by
    rw [← h.size, ← hplace]
    simp [reached, hbody]
  rw [h.visited, hreached, List.take_length]

end RangeLoop
end LuaTT.GrowingVector
