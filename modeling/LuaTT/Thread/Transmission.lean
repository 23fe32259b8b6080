import LuaTT.Lua.Table

/-! What a message can carry, in terms of trees. The conversion reads a string as a number where it can,
cuts it off at a zero byte, and puts the entries of the value in place of a key that is a table. Doing so
twice is the same as doing so once, and the trees that it leaves as they are are exactly those without
such strings and such keys. -/
namespace LuaTT.DataMessage
open Lua TableTree ValueTree
set_option autoImplicit false

/-! ## The tree that arrives -/

def transmittedLeaf : LuaLeaf → LuaLeaf
  | .string s =>
    match ljStrscanNum s with
    | some n => .number n
    | none => .string (cstring s)
  | a => a

/-- The key of an arriving entry: a table is replaced by the value, a leaf is stored as a key. -/
def sentKey (k v : LuaTree) : LuaTree := normalKey (if k.isTable then v else k)

def transmitted : LuaTree → LuaTree
  | .leaf a => .leaf (transmittedLeaf a)
  | .table n k v =>
    .table n (fun i => sentKey (transmitted (k i)) (transmitted (v i))) fun i => transmitted (v i)

/-- Every string is no numeral and has no zero byte, and every key that is a table is the same as its
value. -/
def Transmissible : LuaTree → Prop
  | .leaf (.string s) => ljStrscanNum s = none ∧ (0 : UInt8) ∉ s
  | .leaf _ => True
  | .table _ k v => ∀ i, Transmissible (k i) ∧ Transmissible (v i) ∧ ((k i).isTable → (k i).Same (v i))

/-- The value of a key that is a table is a table, too. -/
def Convertible : LuaTree → Prop
  | .leaf _ => True
  | .table _ k v => ∀ i, ((k i).isTable → (v i).isTable) ∧ Convertible (v i)

/-- The keys are keys of a table: none is NaN, and they are different from each other. -/
def ValidKeys : LuaTree → Prop
  | .leaf _ => True
  | .table _ k v => (∀ i n, k i = .leaf (.number n) → (n == n) = true ∧ normalNumber n = n) ∧
      (∀ i j, i ≠ j → sameKey (k i) (k j) = false) ∧ ∀ i, ValidKeys (v i)

/-- No two keys become the same key. -/
def Unmerged : LuaTree → Prop
  | .leaf _ => True
  | .table _ k v => (∀ i j, i ≠ j →
      sameKey (sentKey (transmitted (k i)) (transmitted (v i)))
        (sentKey (transmitted (k j)) (transmitted (v j))) = false) ∧ ∀ i, Unmerged (v i)

/-! ## Arriving trees -/

@[simp] theorem transmitted_isTable (t : LuaTree) : (transmitted t).isTable = t.isTable := by
  cases t <;> rfl

@[simp] theorem transmitted_entryCount (t : LuaTree) : (transmitted t).entryCount = t.entryCount := by
  induction t with
  | leaf a => rfl
  | table n k v _ ihv => simp [transmitted, entryCount, ihv]

theorem ljStrscanNum_cstring (s : Bytes) : ljStrscanNum (cstring s) = ljStrscanNum s := by
  simp [ljStrscanNum]

theorem transmittedLeaf_transmittedLeaf (a : LuaLeaf) :
    transmittedLeaf (transmittedLeaf a) = transmittedLeaf a := by
  cases a with
  | string s => cases h : ljStrscanNum s <;> simp [transmittedLeaf, h, ljStrscanNum_cstring]
  | _ => rfl

theorem transmitted_normalKey {t : LuaTree} (h : transmitted t = t) :
    transmitted (normalKey t) = normalKey t := by
  cases t with
  | leaf a => cases a <;> first | rfl | exact h
  | table n k v => exact h

theorem transmitted_sentKey {k v : LuaTree} (hk : transmitted k = k) (hv : transmitted v = v) :
    sentKey (transmitted (sentKey k v)) v = sentKey k v := by
  by_cases hkt : k.isTable
  · have hs : sentKey k v = normalKey v := by simp [sentKey, hkt]
    rw [hs, transmitted_normalKey hv, sentKey]
    split_ifs
    · rfl
    · exact normalKey_normalKey v
  · have hs : sentKey k v = normalKey k := by simp [sentKey, hkt]
    rw [hs, transmitted_normalKey hk, sentKey]
    simp [hkt, normalKey_normalKey]

theorem transmitted_transmitted (t : LuaTree) : transmitted (transmitted t) = transmitted t := by
  induction t with
  | leaf a => simp [transmitted, transmittedLeaf_transmittedLeaf]
  | table n k v ihk ihv =>
    simp only [transmitted, table.injEq, heq_eq_eq, true_and]
    refine ⟨funext fun i => ?_, funext ihv⟩
    rw [ihv i]
    exact transmitted_sentKey (ihk i) (ihv i)

theorem sentKey_congr {k k' v v' : LuaTree} (hk : k.Same k') (hv : v.Same v') :
    (sentKey k v).Same (sentKey k' v') := by
  simp only [sentKey, hk.isTable_eq]
  split_ifs
  · exact normalKey_congr hv
  · exact normalKey_congr hk

theorem transmitted_congr {s t : LuaTree} (h : s.Same t) : (transmitted s).Same (transmitted t) := by
  induction s generalizing t with
  | leaf a =>
    cases t with
    | leaf b =>
      obtain rfl : a = b := h
      exact .refl _
    | table _ _ _ => exact h.elim
  | table n k v ihk ihv =>
    cases t with
    | leaf b => exact h.elim
    | table m k' v' =>
      obtain ⟨e, he⟩ := h
      exact ⟨e, fun i => ⟨sentKey_congr (ihk i (he i).1) (ihv i (he i).2), ihv i (he i).2⟩⟩

/-! ## The trees that arrive as they are -/

theorem Transmissible.congr {s t : LuaTree} (h : s.Same t) (hs : Transmissible s) :
    Transmissible t := by
  induction s generalizing t with
  | leaf a =>
    cases t with
    | leaf b =>
      obtain rfl : a = b := h
      exact hs
    | table _ _ _ => exact h.elim
  | table n k v ihk ihv =>
    cases t with
    | leaf b => exact h.elim
    | table m k' v' =>
      obtain ⟨e, he⟩ := h
      intro j
      obtain ⟨hk, hv⟩ := he (e.symm j)
      rw [e.apply_symm_apply] at hk hv
      obtain ⟨htk, htv, hkv⟩ := hs (e.symm j)
      refine ⟨ihk _ hk htk, ihv _ hv htv, fun ht => ?_⟩
      exact hk.symm.trans ((hkv (hk.isTable_eq.trans ht)).trans hv)

theorem Transmissible.convertible {t : LuaTree} (h : Transmissible t) : Convertible t := by
  induction t with
  | leaf a => trivial
  | table n k v _ ihv =>
    intro i
    obtain ⟨_, hv, hkv⟩ := h i
    exact ⟨fun ht => (hkv ht).isTable_eq ▸ ht, ihv i hv⟩

theorem transmittedLeaf_of_transmissible {a : LuaLeaf} (h : Transmissible (.leaf a)) :
    transmittedLeaf a = a := by
  cases a with
  | string s =>
    obtain ⟨hs, hz⟩ := h
    simp [transmittedLeaf, hs, cstring_eq_self.mpr hz]
  | _ => rfl

theorem transmissible_leaf (a : LuaLeaf) : Transmissible (.leaf (transmittedLeaf a)) := by
  cases a with
  | string s =>
    cases h : ljStrscanNum s with
    | some n => simp [transmittedLeaf, h, Transmissible]
    | none =>
      simp only [transmittedLeaf, h]
      exact ⟨(ljStrscanNum_cstring s).trans h, zero_not_mem_cstring s⟩
  | _ => trivial

theorem transmissible_normalKey {a : LuaLeaf} (h : Transmissible (.leaf a)) :
    Transmissible (normalKey (.leaf a)) := by
  cases a with
  | number n => trivial
  | _ => exact h

theorem transmitted_leaf {t : LuaTree} (hl : t.isTable = false) (h : Transmissible t) :
    transmitted t = t := by
  cases t with
  | leaf a => rw [transmitted, transmittedLeaf_of_transmissible h]
  | table n k v => simp [isTable] at hl

theorem sentKey_same {k v : LuaTree} (hk : Transmissible k) (hkv : k.isTable → k.Same v)
    (hn : normalKey k = k) (hv : (transmitted v).Same v) :
    (sentKey (transmitted k) (transmitted v)).Same k := by
  by_cases ht : k.isTable
  · have hvt : (transmitted v).isTable = true := by
      rw [transmitted_isTable, ← (hkv ht).isTable_eq, ht]
    have hs : sentKey (transmitted k) (transmitted v) = transmitted v := by
      simp [sentKey, ht, normalKey_eq_self hvt]
    exact (Same.of_eq hs).trans (hv.trans (hkv ht).symm)
  · have hs : sentKey (transmitted k) (transmitted v) = k := by
      rw [transmitted_leaf (by simpa using ht) hk]
      simp [sentKey, ht, hn]
    exact .of_eq hs

theorem ValidKeys.normalKey_eq {n : ℕ} {k v : Fin n → LuaTree} (h : ValidKeys (.table n k v))
    (i : Fin n) : normalKey (k i) = k i := by
  cases hk : k i with
  | leaf a =>
    cases a with
    | number x => rw [normalKey, (h.1 i x hk).2]
    | _ => rfl
  | table _ _ _ => rfl

theorem transmitted_same {t : LuaTree} (h : Transmissible t) (hv : ValidKeys t) :
    (transmitted t).Same t := by
  induction t with
  | leaf a => exact .of_eq (transmitted_leaf rfl h)
  | table n k v _ ihv =>
    refine ⟨Equiv.refl _, fun i => ?_⟩
    obtain ⟨htk, htv, hkv⟩ := h i
    have hval := ihv i htv (hv.2.2 i)
    exact ⟨sentKey_same htk hkv (hv.normalKey_eq i) hval, hval⟩

theorem Unmerged.of_transmissible {t : LuaTree} (h : Transmissible t) (hv : ValidKeys t) :
    Unmerged t := by
  induction t with
  | leaf a => trivial
  | table n k v _ ihv =>
    have hkey : ∀ i, (sentKey (transmitted (k i)) (transmitted (v i))).Same (k i) := by
      intro i
      obtain ⟨htk, htv, hkv⟩ := h i
      exact sentKey_same htk hkv (hv.normalKey_eq i) (transmitted_same htv (hv.2.2 i))
    refine ⟨fun i j hij => ?_, fun i => ihv i (h i).2.1 (hv.2.2 i)⟩
    rw [sameKey_congr (hkey i) (hkey j)]
    exact hv.2.1 i j hij

/-- The converse: a tree that arrives as it is can be carried. The matching of its entries shifts the
values around, but a value that another one arrives as arrives as it is. -/
theorem transmissible_of_same {t : LuaTree} (hc : Convertible t) (h : (transmitted t).Same t) :
    Transmissible t := by
  induction t with
  | leaf a =>
    have ha : transmittedLeaf a = a := h
    exact ha ▸ transmissible_leaf a
  | table n k v _ ihv =>
    obtain ⟨e, he⟩ := h
    intro j
    obtain ⟨i, rfl⟩ := e.surjective j
    obtain ⟨hkey, hval⟩ : (sentKey (transmitted (k i)) (transmitted (v i))).Same (k (e i)) ∧
      (transmitted (v i)).Same (v (e i)) := he i
    have hfix : (transmitted (v (e i))).Same (v (e i)) := by
      have hcon := transmitted_congr hval
      rw [transmitted_transmitted] at hcon
      exact hcon.symm.trans hval
    have htv := ihv (e i) (hc (e i)).2 hfix
    by_cases ht : (k i).isTable
    · have hvt : (transmitted (v i)).isTable = true := by
        rw [transmitted_isTable, (hc i).1 ht]
      have hs : sentKey (transmitted (k i)) (transmitted (v i)) = transmitted (v i) := by
        simp [sentKey, ht, normalKey_eq_self hvt]
      rw [hs] at hkey
      have hkv : (k (e i)).Same (v (e i)) := hkey.symm.trans hval
      exact ⟨htv.congr hkv.symm, htv, fun _ => hkv⟩
    · cases hk : k i with
      | table _ _ _ => simp [hk, isTable] at ht
      | leaf a =>
        have hs : sentKey (transmitted (k i)) (transmitted (v i)) =
            normalKey (.leaf (transmittedLeaf a)) := by
          simp [hk, transmitted, sentKey, isTable]
        rw [hs] at hkey
        refine ⟨(transmissible_normalKey (transmissible_leaf a)).congr hkey, htv, fun hkt => ?_⟩
        have hno := hkey.isTable_eq
        rw [normalKey_isTable, hkt] at hno
        simp [isTable] at hno

end LuaTT.DataMessage
