import LuaTT.Thread.DataMessage
import LuaTT.Thread.Transmission
import Mathlib.Logic.Function.Basic

/-! What `convertData` makes of a finite value: a message that `Encodes` its tree, whatever the addresses
of the messages are, or a fault where a key that is a table has a value that is none. -/
namespace LuaTT.DataMessage
open Lua TableTree ValueTree LuaDataMessage
set_option autoImplicit false

/-! ## Messages for trees -/

/-- The table that `convertData` reads for a key: inside a table it always takes the top of the stack,
and that is the value. -/
def keySource (k v : LuaTree) : LuaTree := if k.isTable then v else k

inductive Encodes : LuaTree → LuaDataMessage → Prop
  | number (n : LuaNumber) : Encodes (.leaf (.number n)) (.number n)
  | numeral {s : Bytes} {n : LuaNumber} (h : ljStrscanNum s = some n) :
      Encodes (.leaf (.string s)) (.number n)
  | string {s : Bytes} (h : ljStrscanNum s = none) :
      Encodes (.leaf (.string s)) (.string (cstring s))
  | boolean (b : Bool) : Encodes (.leaf (.boolean b)) (.boolean b)
  | table {n m : ℕ} {k v : Fin n → LuaTree} {k' v' : Fin m → LuaDataMessage} (e : Fin n ≃ Fin m)
      (ht : ∀ i, (k i).isTable → (v i).isTable)
      (hk : ∀ i, Encodes (keySource (k i) (v i)) (k' (e i)))
      (hv : ∀ i, Encodes (v i) (v' (e i))) : Encodes (.table n k v) (.table m k' v')

theorem Encodes.convertible {t : LuaTree} {m : LuaDataMessage} (h : Encodes t m) :
    Convertible t := by
  induction h with
  | table e ht hk hv _ ihv => exact fun i => ⟨ht i, ihv i⟩
  | _ => trivial

/-! ## The map -/

theorem mapInsert_perm {a : ℕ} {k v : LuaDataMessage} {m : TableType}
    (h : ∀ x ∈ m, x.1 ≠ a) : (mapInsert a k v m).Perm (m ++ [(a, k, v)]) := by
  induction m with
  | nil => exact .refl _
  | cons x m ih =>
    obtain ⟨a', k', v'⟩ := x
    have hne : a ≠ a' := fun he => h _ (List.mem_cons_self ..) he.symm
    unfold mapInsert
    split_ifs with hlt
    · exact @List.perm_append_comm _ [(a, k, v)] _
    · exact (ih fun y hy => h y (List.mem_cons_of_mem _ hy)).cons _

section Convert
variable {heap : Heap} {addr : ℕ → ℕ}

/-- The value whose entries `convertData` reads, for the value `v` at its index and the value `w` at
the index that it gives to `lua_next`. -/
def source (v w : LuaValue) : LuaValue := if v.istable then w else v

/-- The body of the loop over a table. -/
def convertEntry (heap : Heap) (addr : ℕ → ℕ) (fuel : ℕ) (stack : List LuaValue)
    (acc : ℕ × TableType) (e : LuaValue × LuaValue) : Except Fault (ℕ × TableType) := do
  let (next, key) ← convertData heap addr fuel acc.1 (stack ++ [e.1, e.2]) (-2) true
  let (next, value) ← convertData heap addr fuel next (stack ++ [e.1, e.2]) (-1) true
  return (next, insertEntry key value acc.2)

theorem convertData_succ (fuel next : ℕ) (stack : List LuaValue) (n : ℤ) (insideTable : Bool)
    {v w : LuaValue} (hv : index2adr stack n = some v)
    (hw : v.istable → index2adr (stack ++ [.nil]) (if insideTable then stack.length else n) = some w) :
    convertData heap addr (fuel + 1) next stack n insideTable =
      if v.isnumber then newMessage addr next (.number v.tonumber)
      else if v.isstring then newMessage addr next (.string (v.tostring.getD []))
      else if v.isboolean then newMessage addr next (.boolean v.toboolean)
      else if v.istable then
        match w with
        | .table r => do
          let (next, map) ← (heap.entries r).foldlM (convertEntry heap addr fuel stack) (next, [])
          newMessage addr next (.ofMap map)
        | _ => .error .notATable
      else .ok (next, none) := by
  rw [convertData]
  simp only [hv, Option.getD_some]
  split_ifs with _ _ _ ht hi
  · rfl
  · rfl
  · rfl
  · have h := hw ht
    rw [if_pos hi] at h
    simp only [h]
    cases w <;> rfl
  · have h := hw ht
    rw [if_neg hi] at h
    simp only [h]
    cases w <;> rfl
  · rfl

/-! ## The result of a conversion -/

/-- The conversion with this fuel, where it returns: a message for the tree, allocated by the call. -/
def ConvertsTo (heap : Heap) (addr : ℕ → ℕ) (fuel : ℕ) : Prop :=
  ∀ {next : ℕ} {stack : List LuaValue} {n : ℤ} {insideTable : Bool} {v w : LuaValue} {t : LuaTree}
    {next' : ℕ} {res : Option (ℕ × LuaDataMessage)}, index2adr stack n = some v →
    (v.istable → index2adr (stack ++ [.nil]) (if insideTable then stack.length else n) = some w) →
    Unfolds heap (source v w) t → convertData heap addr fuel next stack n insideTable = .ok (next', res) →
    (v.istable → w.istable) ∧ ∃ j m, res = some (addr j, m) ∧ next ≤ j ∧ j < next' ∧ Encodes t m

theorem bind_eq_ok {ε α β : Type} {x : Except ε α} {f : α → Except ε β} {b : β}
    (h : x >>= f = .ok b) : ∃ a, x = .ok a ∧ f a = .ok b := by
  cases x with
  | error e => cases h
  | ok a => exact ⟨a, rfl, h⟩

theorem index2adr_value (stack : List LuaValue) (k v : LuaValue) :
    index2adr (stack ++ [k, v]) (-1) = some v := by
  rw [show stack ++ [k, v] = (stack ++ [k]) ++ [v] by simp]
  exact index2adr_top _ _

theorem index2adr_gettop (stack : List LuaValue) (k v : LuaValue) :
    index2adr (stack ++ [k, v] ++ [.nil]) (if true then ((stack ++ [k, v]).length : ℤ) else 0) =
      some v := by
  have hlen : ((stack ++ [k, v]).length : ℤ) - 1 = ((stack.length + 1 : ℕ) : ℤ) := by
    simp
    omega
  rw [if_pos rfl, index2adr, if_pos (by simp; omega), hlen]
  simp

/-- The argument at index 2 is also what `lua_next` reads, below the nil pushed on top. -/
theorem index2adr_argument {args : List LuaValue} {v : LuaValue} (hv : index2adr args 2 = some v) :
    index2adr (args ++ [.nil]) (if false then (args.length : ℤ) else 2) = some v := by
  simp only [index2adr] at hv ⊢
  simp only [Int.reduceLT, if_true, Int.reduceSub] at hv ⊢
  exact List.getElem?_append_left (List.getElem?_eq_some_iff.mp hv).1 ▸ hv

def EntryEncodes (t : LuaTree × LuaTree) (x : ℕ × LuaDataMessage × LuaDataMessage) : Prop :=
  (t.1.isTable → t.2.isTable) ∧ Encodes (keySource t.1 t.2) x.2.1 ∧ Encodes t.2 x.2.2

def EntryUnfolds (heap : Heap) (e : LuaValue × LuaValue) (t : LuaTree × LuaTree) : Prop :=
  Unfolds heap e.1 t.1 ∧ Unfolds heap e.2 t.2

theorem unfolds_source {k v : LuaValue} {t : LuaTree × LuaTree}
    (h : EntryUnfolds heap (k, v) t) : Unfolds heap (source k v) (keySource t.1 t.2) := by
  have hk := h.1.istable_eq
  simp only at hk
  rw [source, keySource, hk]
  split_ifs
  · exact h.2
  · exact h.1

theorem convertEntry_encodes {fuel : ℕ} (hc : ConvertsTo heap addr fuel) {stack : List LuaValue}
    {next next' : ℕ} {map map' : TableType} {e : LuaValue × LuaValue} {t : LuaTree × LuaTree}
    (ht : EntryUnfolds heap e t) (h : convertEntry heap addr fuel stack (next, map) e = .ok (next', map')) :
    ∃ j k v, next ≤ j ∧ j < next' ∧ map' = mapInsert (addr j) k v map ∧
      EntryEncodes t (addr j, k, v) := by
  obtain ⟨⟨next₁, key⟩, hkey, h⟩ := bind_eq_ok h
  obtain ⟨⟨next₂, value⟩, hvalue, h⟩ := bind_eq_ok h
  obtain ⟨hkv, j, k, rfl, hj, hj', hk⟩ := hc (index2adr_below_top stack e.1 e.2)
    (fun _ => index2adr_gettop stack e.1 e.2) (unfolds_source ht) hkey
  obtain ⟨_, i, v, rfl, hi, hi', hv⟩ := hc (w := e.2) (index2adr_value stack e.1 e.2)
    (fun _ => index2adr_gettop stack e.1 e.2) (t := t.2) (by simpa [source] using ht.2) hvalue
  obtain ⟨rfl, rfl⟩ : next₂ = next' ∧ mapInsert (addr j) k v map = map' := by
    simpa [insertEntry, pure, Except.pure] using h
  refine ⟨j, k, v, hj, by omega, rfl, ?_, hk, hv⟩
  rw [← ht.1.istable_eq, ← ht.2.istable_eq]
  exact hkv

theorem foldlM_convertEntry (ha : Function.Injective addr) {fuel : ℕ}
    (hc : ConvertsTo heap addr fuel) {stack : List LuaValue} {es : List (LuaValue × LuaValue)}
    {ts : List (LuaTree × LuaTree)} (ht : List.Forall₂ (EntryUnfolds heap) es ts)
    {next next' : ℕ} {map map' : TableType} (hmap : ∀ x ∈ map, ∃ j < next, x.1 = addr j)
    (h : es.foldlM (convertEntry heap addr fuel stack) (next, map) = .ok (next', map')) :
    next ≤ next' ∧ ∃ items, map'.Perm (map ++ items) ∧ List.Forall₂ EntryEncodes ts items := by
  induction ht generalizing next map with
  | nil =>
    obtain ⟨rfl, rfl⟩ : next = next' ∧ map = map' := by simpa [pure, Except.pure] using h
    exact ⟨le_refl _, [], by simp, .nil⟩
  | @cons e t es ts het _ ih =>
    rw [List.foldlM_cons] at h
    obtain ⟨⟨next₁, map₁⟩, hentry, h⟩ := bind_eq_ok h
    obtain ⟨j, k, v, hj, hj', rfl, henc⟩ := convertEntry_encodes hc het hentry
    have hnew : ∀ x ∈ map, x.1 ≠ addr j := by
      intro x hx he
      obtain ⟨i, hi, hxi⟩ := hmap x hx
      have hij := ha (hxi.symm.trans he)
      omega
    have hperm := mapInsert_perm (k := k) (v := v) hnew
    have hmap₁ : ∀ x ∈ mapInsert (addr j) k v map, ∃ i < next₁, x.1 = addr i := by
      intro x hx
      rcases List.mem_append.mp (hperm.subset hx) with hx | hx
      · obtain ⟨i, hi, hxi⟩ := hmap x hx
        exact ⟨i, by omega, hxi⟩
      · rw [List.mem_singleton.mp hx]
        exact ⟨j, hj', rfl⟩
    obtain ⟨hle, items, hp, hitems⟩ := ih hmap₁ h
    refine ⟨by omega, (addr j, k, v) :: items, ?_, .cons henc hitems⟩
    rw [List.append_cons]
    exact hp.trans (hperm.append_right items)

theorem forall₂_ofFn {α β : Type} {R : α → β → Prop} {l : List α} {f : Fin l.length → β}
    (h : ∀ i, R (l.get i) (f i)) : List.Forall₂ R l (List.ofFn f) := by
  rw [List.forall₂_iff_get]
  refine ⟨by simp, fun i hi _ => ?_⟩
  simpa using h ⟨i, hi⟩

theorem newMessage_eq_ok {next next' : ℕ} {m : LuaDataMessage} {res : Option (ℕ × LuaDataMessage)}
    {t : LuaTree} (h : newMessage addr next m = .ok (next', res)) (he : Encodes t m) :
    ∃ j m, res = some (addr j, m) ∧ next ≤ j ∧ j < next' ∧ Encodes t m := by
  obtain ⟨rfl, rfl⟩ : next + 1 = next' ∧ some (addr next, m) = res := by simpa [newMessage] using h
  exact ⟨next, m, rfl, by omega, by omega, he⟩

theorem encodes_ofMap {n : ℕ} {k v : Fin n → LuaTree} {items map : TableType} (hp : map.Perm items)
    (hi : List.Forall₂ EntryEncodes (List.ofFn fun i => (k i, v i)) items) :
    Encodes (.table n k v) (.ofMap map) := by
  have hlen : n = items.length := by simpa using hi.length_eq
  obtain ⟨e, he⟩ := exists_equiv_of_perm hp.symm
  have hget : ∀ i : Fin n, EntryEncodes (k i, v i) (map.get (e (finCongr hlen i))) := by
    intro i
    rw [← he]
    have hi' := (List.forall₂_iff_get.mp hi).2 i (by simp) (by simp [← hlen])
    simpa using hi'
  exact .table ((finCongr hlen).trans e) (fun i => (hget i).1) (fun i => (hget i).2.1)
    fun i => (hget i).2.2

theorem convertsTo (ha : Function.Injective addr) (fuel : ℕ) : ConvertsTo heap addr fuel := by
  induction fuel with
  | zero =>
    intro next stack n insideTable v w t next' res _ _ _ h
    cases h
  | succ fuel ih =>
    intro next stack n insideTable v w t next' res hv hw ht h
    rw [convertData_succ fuel next stack n insideTable hv hw] at h
    cases v with
    | number x =>
      cases ht
      exact ⟨by simp [LuaValue.istable], newMessage_eq_ok h (.number x)⟩
    | string s =>
      cases ht
      refine ⟨by simp [LuaValue.istable], ?_⟩
      cases hs : ljStrscanNum s with
      | some x =>
        simp only [LuaValue.isnumber, hs, LuaValue.tonumber] at h
        exact newMessage_eq_ok h (.numeral hs)
      | none =>
        simp only [LuaValue.isnumber, hs] at h
        exact newMessage_eq_ok h (.string hs)
    | boolean b =>
      cases ht
      exact ⟨by simp [LuaValue.istable], newMessage_eq_ok h (.boolean b)⟩
    | table r =>
      cases w with
      | table r' =>
        refine ⟨fun _ => rfl, ?_⟩
        cases ht with
        | table _ k v hk hv =>
          obtain ⟨⟨next₁, map⟩, hloop, h⟩ := bind_eq_ok h
          have hes : List.Forall₂ (EntryUnfolds heap) (heap.entries r') (List.ofFn fun i => (k i, v i)) :=
            forall₂_ofFn fun i => ⟨hk i, hv i⟩
          obtain ⟨hle, items, hp, hi⟩ := foldlM_convertEntry ha ih hes (by simp) hloop
          obtain ⟨j, m, hres, hj, hj', hm⟩ := newMessage_eq_ok h (encodes_ofMap (by simpa using hp) hi)
          exact ⟨j, m, hres, by omega, hj', hm⟩
      | _ => cases h
    | _ => cases ht

/-! ## Enough fuel -/

theorem foldlM_ok {ε α β : Type} {f : β → α → Except ε β} {es : List α}
    (h : ∀ e ∈ es, ∀ acc, ∃ acc', f acc e = .ok acc') (acc : β) : ∃ r, es.foldlM f acc = .ok r := by
  induction es generalizing acc with
  | nil => exact ⟨acc, rfl⟩
  | cons e es ih =>
    obtain ⟨acc', he⟩ := h e (List.mem_cons_self ..) acc
    obtain ⟨r, hr⟩ := ih (fun x hx => h x (List.mem_cons_of_mem _ hx)) acc'
    exact ⟨r, by rw [List.foldlM_cons, he]; exact hr⟩

/-- A loop whose iterations succeed or fail whatever came before them. -/
theorem foldlM_total_iff {ε α β : Type} {f : β → α → Except ε β} {P : α → Prop}
    (h : ∀ acc e, (∃ acc', f acc e = .ok acc') ↔ P e) (es : List α) (acc : β) :
    (∃ r, es.foldlM f acc = .ok r) ↔ ∀ e ∈ es, P e := by
  constructor
  · rintro ⟨r, hr⟩
    induction es generalizing acc with
    | nil => exact fun e he => absurd he List.not_mem_nil
    | cons x es ih =>
      rw [List.foldlM_cons] at hr
      obtain ⟨acc', hx, hr⟩ := bind_eq_ok hr
      intro e he
      rcases List.mem_cons.mp he with rfl | he
      · exact (h acc e).mp ⟨acc', hx⟩
      · exact ih acc' hr e he
  · exact fun hall => foldlM_ok (fun e he acc => (h acc e).mpr (hall e he)) acc

/-- The recursion with this fuel ends without a fault, for the value `v` at the index and the value `w`
whose entries are read if `v` is a table. -/
def Returns (heap : Heap) : ℕ → LuaValue → LuaValue → Prop
  | 0, _, _ => False
  | fuel + 1, v, w => v.istable →
      ∃ r, w = .table r ∧ ∀ e ∈ heap.entries r, Returns heap fuel e.1 e.2 ∧ Returns heap fuel e.2 e.2

theorem convertEntry_total {fuel : ℕ} {stack : List LuaValue} {acc : ℕ × TableType}
    {e : LuaValue × LuaValue}
    (hkey : ∀ next, (∃ x, convertData heap addr fuel next (stack ++ [e.1, e.2]) (-2) true = .ok x) ↔
      Returns heap fuel e.1 e.2)
    (hvalue : ∀ next, (∃ x, convertData heap addr fuel next (stack ++ [e.1, e.2]) (-1) true = .ok x) ↔
      Returns heap fuel e.2 e.2) :
    (∃ acc', convertEntry heap addr fuel stack acc e = .ok acc') ↔
      Returns heap fuel e.1 e.2 ∧ Returns heap fuel e.2 e.2 := by
  constructor
  · rintro ⟨acc', h⟩
    obtain ⟨⟨next₁, key⟩, hk, h⟩ := bind_eq_ok h
    obtain ⟨⟨next₂, value⟩, hv, _⟩ := bind_eq_ok h
    exact ⟨(hkey _).mp ⟨_, hk⟩, (hvalue _).mp ⟨_, hv⟩⟩
  · rintro ⟨hk, hv⟩
    obtain ⟨⟨next₁, key⟩, hk⟩ := (hkey acc.1).mpr hk
    obtain ⟨⟨next₂, value⟩, hv⟩ := (hvalue next₁).mpr hv
    refine ⟨(next₂, insertEntry key value acc.2), ?_⟩
    simp only [convertEntry, hk, hv, bind, Except.bind]
    rfl

/-- Whether the conversion returns depends on the heap and the two values only. -/
theorem convertData_returns {fuel next : ℕ} {stack : List LuaValue} {n : ℤ} {insideTable : Bool}
    {v w : LuaValue} (hv : index2adr stack n = some v)
    (hw : v.istable → index2adr (stack ++ [.nil]) (if insideTable then stack.length else n) = some w) :
    (∃ x, convertData heap addr fuel next stack n insideTable = .ok x) ↔ Returns heap fuel v w := by
  induction fuel generalizing next stack n insideTable v w with
  | zero => simp [convertData, Returns]
  | succ fuel ih =>
    rw [convertData_succ fuel next stack n insideTable hv hw, Returns]
    cases v with
    | table r =>
      cases w with
      | table r' =>
        have hentry : ∀ (acc : ℕ × TableType) e, (∃ acc', convertEntry heap addr fuel stack acc e = .ok acc') ↔
            Returns heap fuel e.1 e.2 ∧ Returns heap fuel e.2 e.2 := fun acc e => convertEntry_total
          (fun next => ih (index2adr_below_top stack e.1 e.2) fun _ => index2adr_gettop stack e.1 e.2)
          fun next => ih (index2adr_value stack e.1 e.2) fun _ => index2adr_gettop stack e.1 e.2
        have hloop := foldlM_total_iff hentry (heap.entries r') (next, [])
        constructor
        · rintro ⟨x, hx⟩ _
          obtain ⟨acc, hacc, _⟩ := bind_eq_ok hx
          exact ⟨r', rfl, hloop.mp ⟨acc, hacc⟩⟩
        · intro h
          obtain ⟨r₁, hr₁, hentries⟩ := h rfl
          obtain rfl := LuaValue.table.inj hr₁
          obtain ⟨acc, hacc⟩ := hloop.mpr hentries
          exact ⟨_, by simp only [LuaValue.isnumber, LuaValue.isstring, LuaValue.isboolean,
            LuaValue.istable, hacc]; rfl⟩
      | _ => simp [LuaValue.isnumber, LuaValue.isstring, LuaValue.isboolean, LuaValue.istable]
    | string s =>
      cases hs : ljStrscanNum s <;>
        simp [LuaValue.isnumber, LuaValue.isstring, LuaValue.istable, hs, newMessage]
    | _ => exact ⟨fun _ ht => by simp [LuaValue.istable] at ht, fun _ => ⟨_, rfl⟩⟩

theorem returns_of_not_table {fuel : ℕ} {v w : LuaValue} (h : ¬ v.istable) :
    Returns heap (fuel + 1) v w := fun ht => absurd ht h

theorem Convertible.keySource {k v : LuaTree} (h : Convertible v) :
    Convertible (keySource k v) := by
  cases k with
  | leaf a => trivial
  | table n k' v' => exact h

/-- The recursion over a tree goes as deep as the tree, if every key that is a table has one as its value. -/
theorem returns_of_unfolds {fuel : ℕ} {v w : LuaValue} {t : LuaTree} (hvw : v.istable → w.istable)
    (ht : Unfolds heap (source v w) t) (hc : Convertible t) (hf : t.depth ≤ fuel) :
    Returns heap fuel v w := by
  induction fuel generalizing v w t with
  | zero =>
    have hpos := t.depth_pos
    omega
  | succ fuel ih =>
    intro htable
    have hw := hvw htable
    rw [source, if_pos htable] at ht
    cases ht with
    | table r k v hk hv =>
      refine ⟨r, rfl, fun e he => ?_⟩
      obtain ⟨i, hi⟩ := List.mem_iff_get.mp he
      have hu : EntryUnfolds heap e (k i, v i) := hi ▸ ⟨hk i, hv i⟩
      have hdepth := depth_lt k v i
      obtain ⟨hkv, hci⟩ := hc i
      rw [← hu.1.istable_eq, ← hu.2.istable_eq] at hkv
      have hkd : (keySource (k i) (v i)).depth ≤ fuel := by
        rw [keySource]
        split_ifs <;> omega
      have hkey := ih hkv (unfolds_source hu) hci.keySource hkd
      have hvalue := ih (v := e.2) id (by simpa [source] using hu.2) hci (by omega)
      exact ⟨hkey, hvalue⟩
    | _ => simp [LuaValue.istable] at hw

/-- Where a value is a table for every key that is a table, the conversion returns. -/
theorem convertData_total {fuel next : ℕ} {stack : List LuaValue} {n : ℤ} {insideTable : Bool}
    {v w : LuaValue} {t : LuaTree} (hv : index2adr stack n = some v)
    (hw : v.istable → index2adr (stack ++ [.nil]) (if insideTable then stack.length else n) = some w)
    (hvw : v.istable → w.istable) (ht : Unfolds heap (source v w) t) (hc : Convertible t)
    (hf : t.depth ≤ fuel) : ∃ r, convertData heap addr fuel next stack n insideTable = .ok r :=
  (convertData_returns hv hw).mpr (returns_of_unfolds hvw ht hc hf)

end Convert

end LuaTT.DataMessage
