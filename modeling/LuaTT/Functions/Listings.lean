import LuaTT.Library.CountedTable
import LuaTT.Lua.Value

/-! The functions of `LuaFunctions.cpp` that look at more than one list, or stop early. Each makes a table under
a counting index. -/
namespace LuaTT.Functions
open LuaTT.Lua CountedTable
set_option autoImplicit false

/-! ## Tables of IDs -/

/-- A purchase menu: the definition of an entry, and its three alternates. -/
structure PurchaseSettings where
  definition : ℕ → ℕ
  altDefinition : ℕ → ℕ → ℕ

structure Definition where
  classID : ℕ
  id : ℤ

abbrev IdTable := Rows LuaValue

/-- `lua_newtable`, and `index` at 1. -/
def newTable : IdTable := Rows.start .nil

/-- `lua_pushnumber` and `lua_rawseti(L, table, index++)`. -/
def pushID (t : IdTable) (id : ℤ) : IdTable := t.add (ofInt id)

def pushSome (t : IdTable) : Option ℤ → IdTable
  | some id => pushID t id
  | none => t

/-! ## Purchase menus -/

section Purchase
variable (findSettings : ℕ → ℕ → Option PurchaseSettings) (findDefinition : ℕ → Option Definition)

/-- The ID of a definition, if it is of this class. -/
def idOf (cid definition : ℕ) : Option ℤ :=
  match findDefinition definition with
  | some d => if d.classID = cid then some d.id else none
  | none => none

/-- An entry of a menu; the alternates are looked at only where the entry itself is of the class. -/
def pushEntry (cid : ℕ) (menu : PurchaseSettings) (t : IdTable) (i : ℕ) : IdTable :=
  match idOf findDefinition cid (menu.definition i) with
  | none => t
  | some id =>
    let t := pushID t id
    let t := pushSome t (idOf findDefinition cid (menu.altDefinition i 0))
    let t := pushSome t (idOf findDefinition cid (menu.altDefinition i 1))
    pushSome t (idOf findDefinition cid (menu.altDefinition i 2))

def listMenu (cid : ℕ) (t : IdTable) : Option PurchaseSettings → IdTable
  | some menu => (List.range 10).foldl (pushEntry findDefinition cid menu) t
  | none => t

def listMenus (cid : ℕ) : IdTable :=
  (List.range 2).foldl (fun t team =>
    (List.range 7).foldl (fun t type => listMenu findDefinition cid t (findSettings type team)) t) newTable

/-- With `DAPLUGIN` only, as is the next. -/
def getPTSoldiers (cidSoldier : ℕ) : IdTable := listMenus findSettings findDefinition cidSoldier

def getPTVehicles (cidVehicle : ℕ) : IdTable := listMenus findSettings findDefinition cidVehicle

end Purchase

/-! ## Lists with an early end -/

section Early

/-- The player is stored under the number found, not under an index. -/
def storePlayer (t : IdTable) (i total : ℕ) : IdTable :=
  ⟨fun k => if k = total + 1 then ofInt i else t.table k, total + 2⟩

/-- The loop of `Lua_Get_All_Players`; it ends when it has found as many players as there are. -/
def playersLoop (count : ℕ) (found : ℕ → Bool) : List ℕ → IdTable → ℕ → IdTable
  | [], t, _ => t
  | i :: is, t, total =>
    if found i then
      let t := storePlayer t i total
      if count ≤ total + 1 then t else playersLoop count found is t (total + 1)
    else if count ≤ total then t else playersLoop count found is t total

def getAllPlayers (count : ℕ) (found : ℕ → Bool) : IdTable :=
  if count = 0 then newTable else playersLoop count found (List.range 999) newTable 0

/-- The loop of `Lua_Get_Rotation`: it ends at the first map that there is. -/
def rotationLoop (getMap : ℕ → Option Bytes) : List ℕ → (ℕ → LuaValue) → ℕ → LuaValue
  | [], t => t
  | i :: is, t =>
    if (getMap i).isSome then t
    else rotationLoop getMap is fun k => if k = i + 1 then ofCString (getMap i) else t k

def getRotation (getMap : ℕ → Option Bytes) : ℕ → LuaValue := rotationLoop getMap (List.range 999) fun _ => .nil

end Early

/-! ## What the tables hold -/

/-- The IDs one after the other under 1, 2 and so on. -/
def Lists (t : IdTable) (ids : List ℤ) : Prop := t.Holds .nil (ids.map ofInt)

theorem lists_new : Lists newTable [] := Rows.holds_start _

theorem Lists.push {t : IdTable} {ids : List ℤ} (h : Lists t ids) (id : ℤ) : Lists (pushID t id) (ids ++ [id]) := by
  rw [Lists, List.map_append]
  exact h.add (ofInt id)

theorem Lists.pushSome {t : IdTable} {ids : List ℤ} (h : Lists t ids) (id : Option ℤ) :
    Lists (pushSome t id) (ids ++ id.toList) := by
  cases id with
  | none => exact (List.append_nil ids).symm ▸ h
  | some id => exact h.push id

theorem Lists.foldl {α : Type} {step : IdTable → α → IdTable} {g : α → List ℤ}
    (hstep : ∀ t ids x, Lists t ids → Lists (step t x) (ids ++ g x)) {t : IdTable} {ids : List ℤ} (h : Lists t ids)
    (xs : List α) : Lists (xs.foldl step t) (ids ++ xs.flatMap g) := Rows.Holds.foldl hstep h xs

/-! ## Purchase menus -/

section Purchase
variable (findSettings : ℕ → ℕ → Option PurchaseSettings) (findDefinition : ℕ → Option Definition) (cid : ℕ)

/-- What an entry of a menu adds. -/
def entryIDs (menu : PurchaseSettings) (i : ℕ) : List ℤ :=
  match idOf findDefinition cid (menu.definition i) with
  | none => []
  | some id => id :: (List.range 3).filterMap fun j => idOf findDefinition cid (menu.altDefinition i j)

def menuIDs (menu : Option PurchaseSettings) : List ℤ :=
  menu.toList.flatMap fun menu => (List.range 10).flatMap (entryIDs findDefinition cid menu)

theorem pushEntry_lists {t : IdTable} {ids : List ℤ} (h : Lists t ids) (menu : PurchaseSettings) (i : ℕ) :
    Lists (pushEntry findDefinition cid menu t i) (ids ++ entryIDs findDefinition cid menu i) := by
  unfold pushEntry entryIDs
  cases idOf findDefinition cid (menu.definition i) with
  | none => simpa using h
  | some id =>
    have halts := (((h.push id).pushSome (idOf findDefinition cid (menu.altDefinition i 0))).pushSome
      (idOf findDefinition cid (menu.altDefinition i 1))).pushSome
        (idOf findDefinition cid (menu.altDefinition i 2))
    have hrange : (List.range 3).filterMap (fun j => idOf findDefinition cid (menu.altDefinition i j)) =
        (idOf findDefinition cid (menu.altDefinition i 0)).toList ++
          ((idOf findDefinition cid (menu.altDefinition i 1)).toList ++
            (idOf findDefinition cid (menu.altDefinition i 2)).toList) := by
      rw [List.filterMap_eq_flatMap_toList]
      simp [List.range_succ]
    rw [List.append_assoc, List.append_assoc, List.append_assoc] at halts
    dsimp only
    rw [hrange]
    exact halts

theorem menu_lists {t : IdTable} {ids : List ℤ} (h : Lists t ids) (menu : Option PurchaseSettings) :
    Lists (listMenu findDefinition cid t menu) (ids ++ menuIDs findDefinition cid menu) := by
  cases menu with
  | none => exact (List.append_nil ids).symm ▸ h
  | some menu =>
    have hmenu := Lists.foldl (fun _ _ i h => pushEntry_lists findDefinition cid h menu i) h (List.range 10)
    rwa [menuIDs, Option.toList_some, List.flatMap_singleton]

def purchaseIDs : List ℤ := (List.range 2).flatMap fun team => (List.range 7).flatMap fun type =>
  menuIDs findDefinition cid (findSettings type team)

theorem listMenus_lists : Lists (listMenus findSettings findDefinition cid) (purchaseIDs findSettings findDefinition cid) := by
  rw [← List.nil_append (purchaseIDs findSettings findDefinition cid)]
  refine Lists.foldl (fun _ _ team h => ?_) lists_new (List.range 2)
  exact Lists.foldl (fun _ _ type h => menu_lists findDefinition cid h (findSettings type team)) h (List.range 7)

/-- The loops over teams, menus and entries list the entries of the class one after the other, each with its
alternates behind it. -/
theorem purchase_listed (cidSoldier cidVehicle : ℕ) :
    Lists (getPTSoldiers findSettings findDefinition cidSoldier) (purchaseIDs findSettings findDefinition cidSoldier) ∧
      Lists (getPTVehicles findSettings findDefinition cidVehicle) (purchaseIDs findSettings findDefinition cidVehicle) :=
  ⟨listMenus_lists findSettings findDefinition cidSoldier, listMenus_lists findSettings findDefinition cidVehicle⟩

end Purchase

/-! ## Lists with an early end -/

section Early

/-- The number found is one less than the next index, so the entry is added at the end. -/
theorem Lists.store {t : IdTable} {ids : List ℤ} (h : Lists t ids) (i : ℕ) :
    storePlayer t i ids.length = pushID t i := by
  have hindex := h.index
  rw [List.length_map] at hindex
  rw [storePlayer, pushID, Rows.add, hindex]

theorem playersLoop_lists {count : ℕ} {found : ℕ → Bool} {t : IdTable} {ids : List ℤ} (h : Lists t ids)
    (hroom : ids.length < count) (is : List ℕ) : Lists (playersLoop count found is t ids.length)
      (ids ++ ((is.filter found).map Nat.cast).take (count - ids.length)) := by
  induction is generalizing t ids with
  | nil => simpa [playersLoop] using h
  | cons i is ih =>
    unfold playersLoop
    by_cases hi : found i = true
    · have hlen : (ids ++ [(i : ℤ)]).length = ids.length + 1 := by rw [List.length_append, List.length_singleton]
      have hleft : count - ids.length = (count - (ids.length + 1)) + 1 := by omega
      rw [if_pos hi, h.store, List.filter_cons_of_pos hi, List.map_cons, hleft, List.take_succ_cons,
        List.append_cons]
      have hpush := h.push i
      split
      next hdone =>
        have hnone : count - (ids.length + 1) = 0 := by omega
        rw [hnone, List.take_zero, List.append_nil]
        exact hpush
      next hmore =>
        have hnext := ih hpush (by omega)
        rw [hlen] at hnext
        exact hnext
    · have hmore : ¬count ≤ ids.length := Nat.not_le.mpr hroom
      rw [if_neg hi, if_neg hmore, List.filter_cons_of_neg hi]
      exact ih h hroom

/-- The first players of the game by ID, as many as the game counts; the ID 999 is not looked at. -/
theorem players_listed (count : ℕ) (found : ℕ → Bool) :
    Lists (getAllPlayers count found) ((((List.range 999).filter found).map Nat.cast).take count) := by
  unfold getAllPlayers
  split
  next hzero =>
    rw [hzero, List.take_zero]
    exact lists_new
  next hcount => exact playersLoop_lists lists_new (Nat.pos_of_ne_zero hcount) (List.range 999)

/-- What is stored is always `nil`, as the loop goes on only past what is not a map. -/
theorem rotationLoop_nil (getMap : ℕ → Option Bytes) {t : ℕ → LuaValue} (ht : ∀ k, t k = .nil) (is : List ℕ) (k : ℕ) :
    rotationLoop getMap is t k = .nil := by
  induction is generalizing t with
  | nil => exact ht k
  | cons i is ih =>
    unfold rotationLoop
    split
    next => exact ht k
    next hmap =>
      refine ih fun j => ?_
      split
      next =>
        rw [Option.not_isSome_iff_eq_none.mp hmap]
        rfl
      next => exact ht j

/-- Whatever maps there are, the table is empty. -/
theorem rotation_empty (getMap : ℕ → Option Bytes) (k : ℕ) : getRotation getMap k = .nil :=
  rotationLoop_nil getMap (fun _ => rfl) (List.range 999) k

end Early
end LuaTT.Functions
