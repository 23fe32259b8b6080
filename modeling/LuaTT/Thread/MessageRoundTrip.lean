import LuaTT.Thread.Conversion
import Mathlib.Tactic.FinCases

/-! The round trip of a value through a message. `ReturnDataLua` stores the entries one after the other
into a new table, so entries whose keys have become the same overwrite each other; where no two do, the
tree that comes out is the transmitted one. -/
namespace LuaTT.DataMessage
open Lua TableTree ValueTree LuaDataMessage
set_option autoImplicit false

/-! ## Stores into a new table -/

abbrev Entries := List (LuaTree × LuaTree)

/-- The entries that can be reached through the values of a table under construction. -/
def weight (t : Entries) : ℕ := (t.map fun e => 1 + e.2.entryCount).sum

def stored (e : LuaTree × LuaTree) : LuaTree × LuaTree := (normalKey e.1, e.2)

def Different (e e' : LuaTree × LuaTree) : Prop := sameKey e.1 e'.1 = false

theorem entryCount_ofList (t : Entries) : (ValueTree.ofList t).entryCount = weight t :=
  Fin.sum_univ_fun_getElem t fun e => 1 + e.2.entryCount

theorem store_append {t : Entries} {e : LuaTree × LuaTree} (h : ∀ x ∈ t, Different x e) :
    store e.1 e.2 t = t ++ [e] := by
  induction t with
  | nil => rfl
  | cons x t ih =>
    have hx : sameKey x.1 e.1 = false := h x (List.mem_cons_self ..)
    rw [store, hx, ih fun y hy => h y (List.mem_cons_of_mem _ hy)]
    rfl

theorem weight_store_lt {t : Entries} {e : LuaTree × LuaTree} (h : ¬ ∀ x ∈ t, Different x e) :
    weight (store e.1 e.2 t) < weight t + (1 + e.2.entryCount) := by
  induction t with
  | nil => simp at h
  | cons x t ih =>
    rw [store]
    split_ifs with hx
    · simp only [weight, List.map_cons, List.sum_cons]
      omega
    · have ht : ¬ ∀ y ∈ t, Different y e := by
        intro hall
        apply h
        intro y hy
        rcases List.mem_cons.mp hy with rfl | hy
        · simpa [Different] using hx
        · exact hall y hy
      have hlt := ih ht
      simp only [weight, List.map_cons, List.sum_cons] at hlt ⊢
      omega

theorem settable_eq_ok {t t' : Entries} {e : LuaTree × LuaTree} (h : settable t e.1 e.2 = .ok t') :
    t' = store (stored e).1 (stored e).2 t := by
  obtain ⟨key, value⟩ := e
  cases key with
  | leaf a =>
    cases a with
    | number n =>
      simp only [settable] at h
      split_ifs at h
      exact (Except.ok.inj h).symm
    | _ => exact (Except.ok.inj h).symm
  | table n k v => exact (Except.ok.inj h).symm

theorem settables_different {items t t' : Entries} (hd : (t ++ items.map stored).Pairwise Different)
    (h : items.foldlM (fun t e => settable t e.1 e.2) t = .ok t') : t' = t ++ items.map stored := by
  induction items generalizing t with
  | nil =>
    obtain rfl := Except.ok.inj h
    simp
  | cons e items ih =>
    rw [List.foldlM_cons] at h
    obtain ⟨t₁, he, h⟩ := bind_eq_ok h
    rw [List.map_cons, List.append_cons] at hd ⊢
    have hfresh : ∀ x ∈ t, Different x (stored e) := fun x hx =>
      (List.pairwise_append.mp (List.pairwise_append.mp hd).1).2.2 x hx _ (by simp)
    rw [settable_eq_ok he, store_append hfresh] at h
    exact ih hd h

theorem settables_cases {items t t' : Entries}
    (h : items.foldlM (fun t e => settable t e.1 e.2) t = .ok t') :
    (t.Pairwise Different → (t ++ items.map stored).Pairwise Different) ∧
        weight t' = weight t + weight items ∨
      weight t' < weight t + weight items := by
  induction items generalizing t with
  | nil =>
    obtain rfl := Except.ok.inj h
    exact .inl ⟨by simp, by simp [weight]⟩
  | cons e items ih =>
    rw [List.foldlM_cons] at h
    obtain ⟨t₁, he, h⟩ := bind_eq_ok h
    have hw : weight (e :: items) = 1 + e.2.entryCount + weight items := by simp [weight]
    obtain rfl := settable_eq_ok he
    by_cases hfresh : ∀ x ∈ t, Different x (stored e)
    · rw [store_append hfresh] at h
      have hw₁ : weight (t ++ [stored e]) = weight t + (1 + e.2.entryCount) := by
        simp [weight, stored]
      rcases ih h with ⟨hd, heq⟩ | hlt
      · refine .inl ⟨fun ht => ?_, by omega⟩
        rw [List.map_cons, List.append_cons]
        exact hd (List.pairwise_append.mpr ⟨ht, by simp, by simpa using hfresh⟩)
      · exact .inr (by omega)
    · have hlt := weight_store_lt hfresh
      simp only [stored] at hlt
      refine .inr ?_
      rcases ih h with ⟨_, heq⟩ | hlt'
      · simp only [stored] at heq
        omega
      · simp only [stored] at hlt'
        omega

/-! ## The value that `ReturnDataLua` pushes -/

/-- The body of the loop over the map. -/
def returnEntry {m : ℕ} (k v : Fin m → LuaDataMessage) (t : Entries) (i : Fin m) :
    Except LuaError Entries := do
  let key ← returnDataLua (k i)
  let value ← returnDataLua (v i)
  settable t key value

theorem returnDataLua_table {m : ℕ} (k v : Fin m → LuaDataMessage) :
    returnDataLua (.table m k v) = do
      let t ← (List.finRange m).foldlM (returnEntry k v) []
      return .ofList t := by
  rw [returnDataLua]
  rfl

theorem foldlM_returnEntry {m : ℕ} {k v : Fin m → LuaDataMessage} {is : List (Fin m)} {t t' : Entries}
    (h : is.foldlM (returnEntry k v) t = .ok t') :
    ∃ items : Entries, List.Forall₂ (fun i x => returnDataLua (k i) = .ok x.1 ∧ returnDataLua (v i) = .ok x.2)
      is items ∧ items.foldlM (fun t e => settable t e.1 e.2) t = .ok t' := by
  induction is generalizing t with
  | nil => exact ⟨[], .nil, h⟩
  | cons i is ih =>
    rw [List.foldlM_cons] at h
    obtain ⟨t₁, hi, h⟩ := bind_eq_ok h
    obtain ⟨key, hkey, hi⟩ := bind_eq_ok hi
    obtain ⟨value, hvalue, hi⟩ := bind_eq_ok hi
    obtain ⟨items, hitems, h⟩ := ih h
    refine ⟨(key, value) :: items, .cons ⟨hkey, hvalue⟩ hitems, ?_⟩
    rw [List.foldlM_cons, hi]
    exact h

theorem returnDataLua_table_eq_ok {m : ℕ} {k v : Fin m → LuaDataMessage} {r : LuaTree}
    (h : returnDataLua (.table m k v) = .ok r) :
    ∃ rk rv : Fin m → LuaTree, (∀ i, returnDataLua (k i) = .ok (rk i)) ∧
      (∀ i, returnDataLua (v i) = .ok (rv i)) ∧
      ∃ t, (List.ofFn fun i => (rk i, rv i)).foldlM (fun t e => settable t e.1 e.2) [] = .ok t ∧
        r = .ofList t := by
  rw [returnDataLua_table] at h
  obtain ⟨t, ht, hr⟩ := bind_eq_ok h
  obtain ⟨items, hitems, ht⟩ := foldlM_returnEntry ht
  have hlen : items.length = m := by simpa using hitems.length_eq.symm
  subst hlen
  have hget : ∀ i, returnDataLua (k i) = .ok (items.get i).1 ∧ returnDataLua (v i) = .ok (items.get i).2 := by
    intro i
    have hi := (List.forall₂_iff_get.mp hitems).2 i (by simp) i.isLt
    simpa using hi
  refine ⟨fun i => (items.get i).1, fun i => (items.get i).2, fun i => (hget i).1, fun i => (hget i).2,
    t, ?_, (Except.ok.inj hr).symm⟩
  have hof : (List.ofFn fun i => ((items.get i).1, (items.get i).2)) = items := List.ofFn_get items
  rwa [hof]

theorem ofList_ofFn {m : ℕ} (k v : Fin m → LuaTree) :
    (ValueTree.ofList (List.ofFn fun j => (k j, v j))).Same (.table m k v) := by
  refine ⟨finCongr List.length_ofFn, fun i => ?_⟩
  have hget := List.get_ofFn (fun j => (k j, v j)) i
  exact ⟨.of_eq (congrArg Prod.fst hget), .of_eq (congrArg Prod.snd hget)⟩

theorem weight_ofFn {m : ℕ} (k v : Fin m → LuaTree) :
    weight (List.ofFn fun j => (k j, v j)) = ∑ j, (1 + (v j).entryCount) := by
  simp [weight, List.map_ofFn, List.sum_ofFn]

theorem sentKey_keySource (k v : LuaTree) :
    sentKey (transmitted k) (transmitted v) = normalKey (transmitted (keySource k v)) := by
  rw [sentKey, keySource, transmitted_isTable]
  split_ifs <;> rfl

theorem Unmerged.keySource {k v : LuaTree} (h : Unmerged v) : Unmerged (keySource k v) := by
  cases k with
  | leaf a => trivial
  | table n k' v' => exact h

/-- The keys of the entries are different if and only if those they are matched with are. -/
theorem pairwise_stored {n m : ℕ} {rk : Fin m → LuaTree} {key : Fin n → LuaTree}
    (rv : Fin m → LuaTree) (e : Fin n ≃ Fin m) (hkey : ∀ i, (normalKey (rk (e i))).Same (key i)) :
    ((List.ofFn fun j => (rk j, rv j)).map stored).Pairwise Different ↔
      ∀ i i', i ≠ i' → sameKey (key i) (key i') = false := by
  rw [List.map_ofFn, List.pairwise_ofFn]
  constructor
  · intro hd i i' hne
    rw [← sameKey_congr (hkey i) (hkey i')]
    rcases lt_or_gt_of_ne (e.injective.ne hne) with hlt | hgt
    · exact hd hlt
    · rw [sameKey_comm]
      exact hd hgt
  · intro hd j j' hlt
    obtain ⟨i, rfl⟩ := e.surjective j
    obtain ⟨i', rfl⟩ := e.surjective j'
    show sameKey (normalKey (rk (e i))) (normalKey (rk (e i'))) = false
    rw [sameKey_congr (hkey i) (hkey i')]
    exact hd i i' fun h => by simp [h] at hlt

/-- What comes out of a message for `t`: the transmitted tree if no two keys become the same, fewer
entries otherwise. -/
theorem returnDataLua_cases {t r : LuaTree} {m : LuaDataMessage} (he : Encodes t m)
    (h : returnDataLua m = .ok r) :
    Unmerged t ∧ r.Same (transmitted t) ∨ ¬ Unmerged t ∧ r.entryCount < t.entryCount := by
  induction he generalizing r with
  | number n =>
    obtain rfl := Except.ok.inj h
    exact .inl ⟨trivial, .refl _⟩
  | @numeral s n hs =>
    obtain rfl := Except.ok.inj h
    exact .inl ⟨trivial, .of_eq (by simp [transmitted, transmittedLeaf, hs])⟩
  | @string s hs =>
    obtain rfl := Except.ok.inj h
    exact .inl ⟨trivial, .of_eq (by simp [transmitted, transmittedLeaf, hs])⟩
  | boolean b =>
    obtain rfl := Except.ok.inj h
    exact .inl ⟨trivial, .refl _⟩
  | @table n m k v k' v' e ht _ _ ihk ihv =>
    obtain ⟨rk, rv, hrk, hrv, t', ht', rfl⟩ := returnDataLua_table_eq_ok h
    have hcases := settables_cases ht'
    rw [entryCount_ofList]
    simp only [List.nil_append, weight_ofFn, show weight [] = 0 from rfl, Nat.zero_add] at hcases
    rw [← e.sum_comp fun j => 1 + (rv j).entryCount] at hcases
    by_cases hall : ∀ i, Unmerged (v i)
    · have hval : ∀ i, (rv (e i)).Same (transmitted (v i)) := fun i =>
        ((ihv i (hrv _)).resolve_right fun hn => hn.1 (hall i)).2
      have hkey : ∀ i, (normalKey (rk (e i))).Same
          (sentKey (transmitted (k i)) (transmitted (v i))) := by
        intro i
        rw [sentKey_keySource]
        exact normalKey_congr ((ihk i (hrk _)).resolve_right fun hn => hn.1 (hall i).keySource).2
      have hcount : ∀ i, (rv (e i)).entryCount = (v i).entryCount := fun i => by
        rw [(hval i).entryCount_eq, transmitted_entryCount]
      simp only [hcount] at hcases
      have hpair := pairwise_stored rv e hkey
      by_cases hd : ∀ i i', i ≠ i' → sameKey (sentKey (transmitted (k i)) (transmitted (v i)))
          (sentKey (transmitted (k i')) (transmitted (v i'))) = false
      · obtain rfl := settables_different (t := []) (hpair.mpr hd) ht'
        refine .inl ⟨⟨hd, hall⟩, ?_⟩
        rw [List.nil_append, List.map_ofFn]
        refine (ofList_ofFn (fun j => normalKey (rk j)) rv).trans ⟨e.symm, fun j => ?_⟩
        obtain ⟨i, rfl⟩ := e.surjective j
        rw [e.symm_apply_apply]
        exact ⟨hkey i, hval i⟩
      · refine .inr ⟨fun hu => hd hu.1, hcases.resolve_left fun hleft => hd ?_⟩
        exact hpair.mp (hleft.1 .nil)
    · obtain ⟨i₀, hi₀⟩ := not_forall.mp hall
      have hle : ∀ i, (rv (e i)).entryCount ≤ (v i).entryCount := by
        intro i
        rcases ihv i (hrv _) with ⟨_, hs⟩ | ⟨_, hlt⟩
        · rw [hs.entryCount_eq, transmitted_entryCount]
        · exact hlt.le
      have hlt : (rv (e i₀)).entryCount < (v i₀).entryCount :=
        ((ihv i₀ (hrv _)).resolve_left fun hn => hi₀ hn.1).2
      have hsum : ∑ i, (1 + (rv (e i)).entryCount) < ∑ i, (1 + (v i).entryCount) :=
        Finset.sum_lt_sum (fun i _ => by have := hle i; omega) ⟨i₀, Finset.mem_univ _, by omega⟩
      refine .inr ⟨fun hu => hall hu.2, lt_of_le_of_lt ?_ hsum⟩
      rcases hcases with ⟨_, heq⟩ | hlt'
      · exact heq.le
      · exact hlt'.le

theorem returnDataLua_total {t : LuaTree} {m : LuaDataMessage} (he : Encodes t m)
    (h : Transmissible t) (hv : ValidKeys t) : ∃ r, returnDataLua m = .ok r := by
  induction he with
  | @table n m k v k' v' e ht hk _ ihk ihv =>
    have hreturn : ∀ j ∈ List.finRange m, ∀ acc, ∃ acc', returnEntry k' v' acc j = .ok acc' := by
      intro j _ acc
      obtain ⟨i, rfl⟩ := e.surjective j
      obtain ⟨htk, htv, _⟩ := h i
      have hsource : Transmissible (keySource (k i) (v i)) ∧ ValidKeys (keySource (k i) (v i)) := by
        rw [keySource]
        split_ifs with hkt
        · exact ⟨htv, hv.2.2 i⟩
        · cases hki : k i with
          | leaf a => exact ⟨hki ▸ htk, trivial⟩
          | table _ _ _ => simp [hki, isTable] at hkt
      obtain ⟨rk, hrk⟩ := ihk i hsource.1 hsource.2
      obtain ⟨rv, hrv⟩ := ihv i htv (hv.2.2 i)
      have hstore : ∃ acc', settable acc rk rv = .ok acc' := by
        have hsame : rk.Same (keySource (k i) (v i)) :=
          ((returnDataLua_cases (hk i) hrk).resolve_right fun hn =>
            hn.1 (.of_transmissible hsource.1 hsource.2)).2.trans (transmitted_same hsource.1 hsource.2)
        cases rk with
        | table _ _ _ => exact ⟨_, rfl⟩
        | leaf a =>
          cases a with
          | number x =>
            have hki : k i = .leaf (.number x) := by
              rw [keySource] at hsame
              split_ifs at hsame with hkt
              · have hno := hsame.isTable_eq
                rw [ht i hkt] at hno
                simp [isTable] at hno
              · cases hki : k i with
                | leaf b =>
                  rw [hki] at hsame
                  have hb : LuaLeaf.number x = b := hsame
                  rw [hb]
                | table _ _ _ => simp [hki, isTable] at hkt
            exact ⟨_, by rw [settable, if_pos (hv.1 i x hki).1]⟩
          | _ => exact ⟨_, rfl⟩
      obtain ⟨acc', hacc⟩ := hstore
      refine ⟨acc', ?_⟩
      rw [returnEntry, hrk, hrv]
      exact hacc
    obtain ⟨t, ht'⟩ := foldlM_ok hreturn []
    exact ⟨.ofList t, by rw [returnDataLua_table, ht']; rfl⟩
  | _ => exact ⟨_, rfl⟩

/-! ## The round trip -/

theorem sameKey_of_rawequal {heap : Heap} {u v : LuaValue} {s t : LuaTree} (hu : Unfolds heap u s)
    (hv : Unfolds heap v t) (h : u.rawequal v = false) : sameKey s t = false := by
  cases hu <;> cases hv <;> simp_all [LuaValue.rawequal, sameKey, LuaLeaf.rawequal]

theorem Unfolds.validKeys {heap : Heap} {v : LuaValue} {t : LuaTree} (h : Unfolds heap v t) :
    ValidKeys t := by
  induction h with
  | table r k v hk hv _ ihv =>
    have hlt : ∀ i j, i < j → sameKey (k i) (k j) = false := fun i j hij =>
      sameKey_of_rawequal (hk i) (hk j) (List.pairwise_iff_get.mp (heap.distinct r) i j hij)
    refine ⟨fun i n hki => ?_, fun i j hij => ?_, ihv⟩
    · have hkey := heap.isKey r _ (List.get_mem (heap.entries r) i)
      have hu := hk i
      rw [hki] at hu
      generalize ((heap.entries r).get i).1 = x at hkey hu
      cases hu
      simpa [LuaValue.isKey] using hkey
    · rcases lt_or_gt_of_ne hij with hij | hij
      · exact hlt i j hij
      · rw [sameKey_comm]
        exact hlt j i hij
  | _ => trivial

/-- `Send_Data` converts the value `v`, its second argument, and the message comes out as a value that
is structurally equal to it. -/
def RoundTrip (heap : Heap) (addr : ℕ → ℕ) (fuel next : ℕ) (channel v : LuaValue) (t : LuaTree) : Prop :=
  ∃ next' a m r, convertData heap addr fuel next [channel, v] 2 false = .ok (next', some (a, m)) ∧
    returnDataLua m = .ok r ∧ t.Same r

/-- **Message round trip.** A finite acyclic value arrives as it was sent if and only if no string in it
is a numeral or has a zero byte, and every key that is a table is structurally equal to its value. -/
theorem message_round_trip {heap : Heap} {v : LuaValue} {t : LuaTree} (hu : Unfolds heap v t)
    {addr : ℕ → ℕ} (ha : Function.Injective addr) {fuel : ℕ} (hf : t.depth ≤ fuel) (next : ℕ)
    (channel : LuaValue) : RoundTrip heap addr fuel next channel v t ↔ Transmissible t := by
  have hv : index2adr [channel, v] 2 = some v := rfl
  have hw : v.istable → index2adr ([channel, v] ++ [.nil])
      (if false then ([channel, v].length : ℤ) else 2) = some v := fun _ => rfl
  have hs : Unfolds heap (source v v) t := by simpa [source] using hu
  constructor
  · rintro ⟨next', a, m, r, hconv, hret, hsame⟩
    obtain ⟨_, j, m', hres, _, _, henc⟩ := convertsTo ha fuel hv hw hs hconv
    obtain ⟨_, rfl⟩ : a = addr j ∧ m = m' := by simpa using hres
    obtain ⟨_, hr⟩ := (returnDataLua_cases henc hret).resolve_right fun hlt => by
      have hcount := hsame.entryCount_eq
      omega
    exact transmissible_of_same henc.convertible (hr.symm.trans hsame.symm)
  · intro ht
    obtain ⟨⟨next', res⟩, hconv⟩ := convertData_total hv hw id hs
      ht.convertible hf
    obtain ⟨_, j, m, rfl, _, _, henc⟩ := convertsTo ha fuel hv hw hs hconv
    have hkeys := Unfolds.validKeys hu
    obtain ⟨r, hret⟩ := returnDataLua_total henc ht hkeys
    obtain ⟨_, hr⟩ := (returnDataLua_cases henc hret).resolve_right fun hn =>
      hn.1 (.of_transmissible ht hkeys)
    exact ⟨next', addr j, m, r, hconv, hret, (hr.trans (transmitted_same ht hkeys)).symm⟩

/-- `{x = true, [{}] = {}}`, as table 0. -/
def sampleHeap : Heap where
  entries
    | 0 => [(.string [120], .boolean true), (.table 1, .table 2)]
    | _ => []
  isKey r e he := by
    cases r with
    | zero =>
      simp only [List.mem_cons, List.not_mem_nil, or_false] at he
      rcases he with rfl | rfl <;> rfl
    | succ r => cases he
  distinct r := by
    cases r with
    | zero => decide
    | succ r => exact .nil

def sampleTree : LuaTree :=
  .table 2 ![.leaf (.string [120]), .table 0 ![] ![]] ![.leaf (.boolean true), .table 0 ![] ![]]

theorem unfolds_sample : Unfolds sampleHeap (.table 0) sampleTree := by
  refine .table 0 _ _ (fun i => ?_) fun i => ?_ <;> fin_cases i
  · exact .string _
  · exact .table 1 _ _ (fun i => i.elim0) fun i => i.elim0
  · exact .boolean _
  · exact .table 2 _ _ (fun i => i.elim0) fun i => i.elim0

theorem message_round_trip_sample : RoundTrip sampleHeap id 2 0 (.string [99]) (.table 0) sampleTree := by
  apply (message_round_trip unfolds_sample Function.injective_id (by decide) 0 (.string [99])).mpr
  intro i
  fin_cases i
  · exact ⟨⟨by decide +kernel, by decide⟩, trivial, fun h => by cases h⟩
  · exact ⟨fun i => i.elim0, fun i => i.elim0, fun _ => ⟨.refl _, fun i => i.elim0⟩⟩

/-- The string "10" comes out as a number. -/
theorem message_round_trip_numeral : ¬ ∀ heap v t, Unfolds heap v t → ∀ addr, Function.Injective addr →
    ∀ fuel, t.depth ≤ fuel → RoundTrip heap addr fuel 0 (.string [99]) v t := by
  intro hall
  obtain ⟨next', a, m, r, hconv, hret, hsame⟩ := hall sampleHeap _ _ (.string [49, 48]) id
    Function.injective_id 1 (le_refl _)
  have hto : ConvertsTo sampleHeap id 1 := convertsTo Function.injective_id 1
  obtain ⟨_, j, m', hres, _, _, henc⟩ := hto (w := .nil) rfl (fun h => by cases h) (.string [49, 48]) hconv
  obtain ⟨_, rfl⟩ : a = id j ∧ m = m' := by simpa using hres
  cases henc with
  | numeral hn =>
    obtain rfl := Except.ok.inj hret
    have hleaf : LuaLeaf.string [49, 48] = .number _ := hsame
    cases hleaf
  | string hn => exact absurd hn (by decide +kernel)

end LuaTT.DataMessage
