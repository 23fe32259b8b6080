import LuaTT.Thread.MessageRoundTrip

/-! Which accepted messages `ReturnDataLua` can turn into a value again. `lua_settable` refuses one key
only, NaN. A table of the sender has no such key, but `convertData` reads a string as a number where it
can, and "nan" is such a string. -/
namespace LuaTT.DataMessage
open Lua TableTree LuaDataMessage
set_option autoImplicit false

/-! ## Messages that come out again -/

def Deliverable (m : LuaDataMessage) : Prop := ∃ r, returnDataLua m = .ok r

/-- `lua_settable` accepts the key. -/
def KeyAccepted : LuaDataMessage → Prop
  | .number n => (n == n) = true
  | _ => True

/-- An entry of a map: its key and its value come out, and the key is accepted. -/
def EntryDeliverable (k v : LuaDataMessage) : Prop := Deliverable k ∧ Deliverable v ∧ KeyAccepted k

theorem deliverable_number (n : LuaNumber) : Deliverable (.number n) := ⟨_, rfl⟩

theorem deliverable_string (s : Bytes) : Deliverable (.string s) := ⟨_, rfl⟩

theorem deliverable_boolean (b : Bool) : Deliverable (.boolean b) := ⟨_, rfl⟩

theorem settable_accepted {k : LuaDataMessage} {key : LuaTree} (hk : returnDataLua k = .ok key)
    (t : Entries) (value : LuaTree) : (∃ t', settable t key value = .ok t') ↔ KeyAccepted k := by
  cases k with
  | number n =>
    obtain rfl := Except.ok.inj hk
    simp only [settable, KeyAccepted]
    split_ifs with hn <;> simp [hn]
  | string s =>
    obtain rfl := Except.ok.inj hk
    exact ⟨fun _ => trivial, fun _ => ⟨_, rfl⟩⟩
  | boolean b =>
    obtain rfl := Except.ok.inj hk
    exact ⟨fun _ => trivial, fun _ => ⟨_, rfl⟩⟩
  | table size key value =>
    obtain ⟨_, _, _, _, t, _, rfl⟩ := returnDataLua_table_eq_ok hk
    exact ⟨fun _ => trivial, fun _ => ⟨_, rfl⟩⟩

theorem returnEntry_total {m : ℕ} (k v : Fin m → LuaDataMessage) (t : Entries) (i : Fin m) :
    (∃ t', returnEntry k v t i = .ok t') ↔ EntryDeliverable (k i) (v i) := by
  constructor
  · rintro ⟨t', h⟩
    obtain ⟨key, hkey, h⟩ := bind_eq_ok h
    obtain ⟨value, hvalue, h⟩ := bind_eq_ok h
    exact ⟨⟨key, hkey⟩, ⟨value, hvalue⟩, (settable_accepted hkey t value).mp ⟨t', h⟩⟩
  · rintro ⟨⟨key, hkey⟩, ⟨value, hvalue⟩, haccepted⟩
    obtain ⟨t', ht'⟩ := (settable_accepted hkey t value).mpr haccepted
    exact ⟨t', by simp only [returnEntry, hkey, hvalue]; exact ht'⟩

theorem deliverable_table {m : ℕ} (k v : Fin m → LuaDataMessage) :
    Deliverable (.table m k v) ↔ ∀ i, EntryDeliverable (k i) (v i) := by
  have hloop := foldlM_total_iff (returnEntry_total k v) (List.finRange m) []
  have hall : (∀ i ∈ List.finRange m, EntryDeliverable (k i) (v i)) ↔
      ∀ i, EntryDeliverable (k i) (v i) := by simp
  rw [← hall, ← hloop, Deliverable, returnDataLua_table]
  constructor
  · rintro ⟨r, hr⟩
    obtain ⟨t, ht, _⟩ := bind_eq_ok hr
    exact ⟨t, ht⟩
  · rintro ⟨t, ht⟩
    exact ⟨.ofList t, by rw [ht]; rfl⟩

theorem deliverable_ofMap (map : TableType) :
    Deliverable (.ofMap map) ↔ ∀ x ∈ map, EntryDeliverable x.2.1 x.2.2 := by
  rw [ofMap, deliverable_table]
  constructor
  · intro h x hx
    obtain ⟨i, rfl⟩ := List.mem_iff_get.mp hx
    exact h i
  · exact fun h i => h _ (List.get_mem map i)

theorem bind_eq_error {ε α β : Type} {x : Except ε α} {f : α → Except ε β} {e : ε}
    (h : x >>= f = .error e) : x = .error e ∨ ∃ a, x = .ok a ∧ f a = .error e := by
  cases x with
  | error e' =>
    cases h
    exact .inl rfl
  | ok a => exact .inr ⟨a, rfl, h⟩

theorem foldlM_eq_error {ε α β : Type} {f : β → α → Except ε β} {es : List α} {acc : β} {e : ε}
    (h : es.foldlM f acc = .error e) : ∃ acc' x, f acc' x = .error e := by
  induction es generalizing acc with
  | nil => cases h
  | cons x es ih =>
    rw [List.foldlM_cons] at h
    rcases bind_eq_error h with h | ⟨acc', _, h⟩
    · exact ⟨acc, x, h⟩
    · exact ih h

/-- The one error there is: "table index is NaN". -/
theorem returnDataLua_eq_error {m : LuaDataMessage} {e : LuaError} (h : returnDataLua m = .error e) :
    e = .nanIndex := by
  induction m with
  | number n => cases h
  | string s => cases h
  | boolean b => cases h
  | table size key value ihk ihv =>
    rw [returnDataLua_table] at h
    rcases bind_eq_error h with h | ⟨t, _, h⟩
    · obtain ⟨t, i, hi⟩ := foldlM_eq_error h
      rcases bind_eq_error hi with hk | ⟨k, _, hi⟩
      · exact ihk i hk
      · rcases bind_eq_error hi with hv | ⟨v, _, hset⟩
        · exact ihv i hv
        · unfold settable at hset
          split at hset
          · split_ifs at hset
            exact (Except.error.inj hset).symm
          · cases hset
    · cases h

theorem error_of_not_deliverable {m : LuaDataMessage} (h : ¬ Deliverable m) :
    returnDataLua m = .error .nanIndex := by
  cases hm : returnDataLua m with
  | ok r => exact absurd ⟨r, hm⟩ h
  | error e => rw [returnDataLua_eq_error hm]

/-! ## Values that convert to such a message -/

/-- `convertData` makes a message of the value, and no null pointer. -/
def sendable (v : LuaValue) : Bool := v.isstring || v.isboolean || v.istable

/-- A key that is read as the number NaN. -/
def NanKey (k : LuaValue) : Prop := k.isnumber = true ∧ (k.tonumber == k.tonumber) = false

/-- Some table in the value, reached through values of entries that are sent, has an entry that is sent
and whose key is read as NaN. -/
inductive Rejects (heap : Heap) : LuaValue → Prop
  | key {r : ℕ} {k v : LuaValue} (he : (k, v) ∈ heap.entries r) (hk : NanKey k)
      (hv : sendable v = true) : Rejects heap (.table r)
  | value {r : ℕ} {k v : LuaValue} (he : (k, v) ∈ heap.entries r) (hk : sendable k = true)
      (hv : Rejects heap v) : Rejects heap (.table r)

section Convert
variable {heap : Heap} {addr : ℕ → ℕ}

theorem Rejects.sendable {v : LuaValue} (h : Rejects heap v) : sendable v = true := by
  cases h <;> rfl

theorem NanKey.sendable {k : LuaValue} (h : NanKey k) : sendable k = true := by
  obtain ⟨hk, _⟩ := h
  cases k <;> first | rfl | cases hk

theorem not_rejects_of_not_table {v : LuaValue} (h : v.istable = false) : ¬ Rejects heap v := by
  intro hr
  cases hr <;> cases h

/-- What the entry makes `ReturnDataLua` refuse. -/
def EntryRejects (heap : Heap) (e : LuaValue × LuaValue) : Prop :=
  sendable e.1 = true ∧ sendable e.2 = true ∧ (NanKey e.1 ∨ Rejects heap e.2)

theorem rejects_table {r : ℕ} :
    Rejects heap (.table r) ↔ ∃ e ∈ heap.entries r, EntryRejects heap e := by
  constructor
  · intro h
    cases h with
    | key he hk hv => exact ⟨_, he, hk.sendable, hv, .inl hk⟩
    | value he hk hv => exact ⟨_, he, hk, hv.sendable, .inr hv⟩
  · rintro ⟨⟨k, v⟩, he, hk, hv, hnan | hrej⟩
    · exact .key he hnan hv
    · exact .value he hk hrej

/-! ## The message of a conversion -/

/-- What a conversion with this fuel returns: a message exactly for the values that are sent, which
comes out again exactly if the table it was read from rejects nothing. -/
def ConvertsSafely (heap : Heap) (addr : ℕ → ℕ) (fuel : ℕ) : Prop :=
  ∀ {next : ℕ} {stack : List LuaValue} {n : ℤ} {insideTable : Bool} {v w : LuaValue}
    {next' : ℕ} {res : Option (ℕ × LuaDataMessage)}, index2adr stack n = some v →
    (v.istable → index2adr (stack ++ [.nil]) (if insideTable then stack.length else n) = some w) →
    convertData heap addr fuel next stack n insideTable = .ok (next', res) →
    (v.istable → w.istable) ∧ next ≤ next' ∧ res.isSome = sendable v ∧
      ∀ a m, res = some (a, m) → (∃ j, a = addr j ∧ next ≤ j ∧ j < next') ∧
        (Deliverable m ↔ ¬ Rejects heap (source v w)) ∧ (KeyAccepted m ↔ ¬ NanKey v)

/-- The map of a table under construction holds messages allocated before, and all of them come out. -/
def MapDeliverable (map : TableType) : Prop := ∀ x ∈ map, EntryDeliverable x.2.1 x.2.2

def Allocated (addr : ℕ → ℕ) (next : ℕ) (map : TableType) : Prop := ∀ x ∈ map, ∃ j < next, x.1 = addr j

theorem Allocated.mono {next next' : ℕ} {map : TableType} (h : Allocated addr next map)
    (hle : next ≤ next') : Allocated addr next' map := by
  intro x hx
  obtain ⟨j, hj, hx⟩ := h x hx
  exact ⟨j, by omega, hx⟩

theorem mapInsert_deliverable {a : ℕ} {k v : LuaDataMessage} {map : TableType} (hnew : ∀ x ∈ map, x.1 ≠ a) :
    MapDeliverable (mapInsert a k v map) ↔ MapDeliverable map ∧ EntryDeliverable k v := by
  have hmem := fun x => (mapInsert_perm (k := k) (v := v) hnew).mem_iff (a := x)
  constructor
  · intro h
    exact ⟨fun x hx => h x ((hmem x).mpr (by simp [hx])), h (a, k, v) ((hmem _).mpr (by simp))⟩
  · rintro ⟨hmap, he⟩ x hx
    rcases List.mem_append.mp ((hmem x).mp hx) with hx | hx
    · exact hmap x hx
    · rw [List.mem_singleton.mp hx]
      exact he

theorem convertEntry_deliverable (ha : Function.Injective addr) {fuel : ℕ}
    (hc : ConvertsSafely heap addr fuel) {stack : List LuaValue} {next next' : ℕ}
    {map map' : TableType} {e : LuaValue × LuaValue} (hmap : Allocated addr next map)
    (h : convertEntry heap addr fuel stack (next, map) e = .ok (next', map')) :
    next ≤ next' ∧ Allocated addr next' map' ∧
      (MapDeliverable map' ↔ MapDeliverable map ∧ ¬ EntryRejects heap e) := by
  obtain ⟨⟨next₁, key⟩, hkey, h⟩ := bind_eq_ok h
  obtain ⟨⟨next₂, value⟩, hvalue, h⟩ := bind_eq_ok h
  obtain ⟨hkv, hle₁, hks, hkm⟩ := hc (index2adr_below_top stack e.1 e.2)
    (fun _ => index2adr_gettop stack e.1 e.2) hkey
  obtain ⟨_, hle₂, hvs, hvm⟩ := hc (w := e.2) (index2adr_value stack e.1 e.2)
    (fun _ => index2adr_gettop stack e.1 e.2) hvalue
  obtain ⟨rfl, rfl⟩ : next₂ = next' ∧ insertEntry key value map = map' := by
    simpa [pure, Except.pure] using h
  have hle : next ≤ next₂ := by omega
  cases key with
  | none =>
    have hno : ¬ EntryRejects heap e := fun hr => by simp [hr.1] at hks
    exact ⟨hle, hmap.mono hle, by simp [insertEntry, hno]⟩
  | some key =>
    cases value with
    | none =>
      have hno : ¬ EntryRejects heap e := fun hr => by simp [hr.2.1] at hvs
      exact ⟨hle, hmap.mono hle, by simp [insertEntry, hno]⟩
    | some value =>
      obtain ⟨⟨j, hj, hnj, hjn⟩, hkd, hka⟩ := hkm key.1 key.2 rfl
      obtain ⟨_, hvd, _⟩ := hvm value.1 value.2 rfl
      have hnew : ∀ x ∈ map, x.1 ≠ key.1 := by
        intro x hx he
        obtain ⟨i, hi, hxi⟩ := hmap x hx
        have hij := ha (hxi.symm.trans (he.trans hj))
        omega
      refine ⟨hle, fun x hx => ?_, ?_⟩
      · rcases List.mem_append.mp ((mapInsert_perm hnew).subset hx) with hx | hx
        · exact hmap.mono hle x hx
        · rw [List.mem_singleton.mp hx]
          exact ⟨j, by omega, hj⟩
      · rw [insertEntry, mapInsert_deliverable hnew]
        apply and_congr_right
        intro _
        have hsource : source e.2 e.2 = e.2 := by simp [source]
        rw [hsource] at hvd
        have hkrej : Rejects heap (source e.1 e.2) → Rejects heap e.2 := by
          intro hr
          by_cases ht : e.1.istable
          · rwa [source, if_pos ht] at hr
          · rw [source, if_neg ht] at hr
            exact absurd hr (not_rejects_of_not_table (by simpa using ht))
        have hks' : sendable e.1 = true := hks.symm
        have hvs' : sendable e.2 = true := hvs.symm
        simp only [EntryDeliverable, EntryRejects, hkd, hvd, hka, hks', hvs', true_and, not_or]
        exact ⟨fun h => ⟨h.2.2, h.2.1⟩, fun h => ⟨fun hr => h.2 (hkrej hr), h.2, h.1⟩⟩

theorem foldlM_deliverable (ha : Function.Injective addr) {fuel : ℕ}
    (hc : ConvertsSafely heap addr fuel) {stack : List LuaValue} {es : List (LuaValue × LuaValue)}
    {next next' : ℕ} {map map' : TableType} (hmap : Allocated addr next map)
    (h : es.foldlM (convertEntry heap addr fuel stack) (next, map) = .ok (next', map')) :
    next ≤ next' ∧
      (MapDeliverable map' ↔ MapDeliverable map ∧ ∀ e ∈ es, ¬ EntryRejects heap e) := by
  induction es generalizing next map with
  | nil =>
    obtain ⟨rfl, rfl⟩ : next = next' ∧ map = map' := by simpa [pure, Except.pure] using h
    exact ⟨le_refl _, by simp⟩
  | cons e es ih =>
    rw [List.foldlM_cons] at h
    obtain ⟨⟨next₁, map₁⟩, hentry, h⟩ := bind_eq_ok h
    obtain ⟨hle₁, hmap₁, hd₁⟩ := convertEntry_deliverable ha hc hmap hentry
    obtain ⟨hle₂, hd₂⟩ := ih hmap₁ h
    refine ⟨by omega, ?_⟩
    rw [hd₂, hd₁, List.forall_mem_cons, and_assoc]

theorem newMessage_deliverable {next next' : ℕ} {m : LuaDataMessage} {res : Option (ℕ × LuaDataMessage)}
    {P : LuaDataMessage → Prop} (h : newMessage addr next m = .ok (next', res)) (hm : P m) :
    next ≤ next' ∧ res.isSome = true ∧
      ∀ a m, res = some (a, m) → (∃ j, a = addr j ∧ next ≤ j ∧ j < next') ∧ P m := by
  obtain ⟨rfl, rfl⟩ : next + 1 = next' ∧ some (addr next, m) = res := by simpa [newMessage] using h
  refine ⟨by omega, rfl, fun a m' he => ?_⟩
  obtain ⟨rfl, rfl⟩ : addr next = a ∧ m = m' := by simpa using he
  exact ⟨⟨next, rfl, by omega, by omega⟩, hm⟩

theorem convertsSafely (ha : Function.Injective addr) (fuel : ℕ) : ConvertsSafely heap addr fuel := by
  induction fuel with
  | zero =>
    intro next stack n insideTable v w next' res _ _ h
    cases h
  | succ fuel ih =>
    intro next stack n insideTable v w next' res hv hw h
    rw [convertData_succ fuel next stack n insideTable hv hw] at h
    cases v with
    | number x =>
      refine ⟨by simp [LuaValue.istable], newMessage_deliverable h ⟨?_, ?_⟩⟩
      · exact iff_of_true (deliverable_number x) (not_rejects_of_not_table rfl)
      · simp [KeyAccepted, NanKey, LuaValue.isnumber, LuaValue.tonumber]
    | string s =>
      refine ⟨by simp [LuaValue.istable], ?_⟩
      cases hs : ljStrscanNum s with
      | some x =>
        simp only [LuaValue.isnumber, hs, LuaValue.tonumber] at h
        refine newMessage_deliverable h ⟨?_, ?_⟩
        · exact iff_of_true (deliverable_number x) (not_rejects_of_not_table rfl)
        · simp [KeyAccepted, NanKey, LuaValue.isnumber, LuaValue.tonumber, hs]
      | none =>
        simp only [LuaValue.isnumber, hs] at h
        refine newMessage_deliverable h ⟨?_, ?_⟩
        · exact iff_of_true (deliverable_string _) (not_rejects_of_not_table rfl)
        · simp [KeyAccepted, NanKey, LuaValue.isnumber, hs]
    | boolean b =>
      refine ⟨by simp [LuaValue.istable], newMessage_deliverable h ⟨?_, ?_⟩⟩
      · exact iff_of_true (deliverable_boolean b) (not_rejects_of_not_table rfl)
      · simp [KeyAccepted, NanKey, LuaValue.isnumber]
    | table r =>
      cases w with
      | table r' =>
        obtain ⟨⟨next₁, map⟩, hloop, h⟩ := bind_eq_ok h
        obtain ⟨hle, hd⟩ := foldlM_deliverable ha ih (by simp [Allocated]) hloop
        have hmap : Deliverable (.ofMap map) ↔ ¬ Rejects heap (.table r') := by
          rw [deliverable_ofMap, rejects_table]
          simpa [MapDeliverable] using hd
        have hkey : KeyAccepted (.ofMap map) ↔ ¬ NanKey (.table r) :=
          iff_of_true trivial fun hk => by simp [NanKey, LuaValue.isnumber] at hk
        obtain ⟨hle', hsome, hres⟩ := newMessage_deliverable
          (P := fun m => (Deliverable m ↔ ¬ Rejects heap (.table r')) ∧
            (KeyAccepted m ↔ ¬ NanKey (.table r))) h ⟨hmap, hkey⟩
        refine ⟨fun _ => rfl, by omega, hsome, fun a m he => ?_⟩
        obtain ⟨⟨j, hj, hnj, hjn⟩, hm⟩ := hres a m he
        exact ⟨⟨j, hj, by omega, hjn⟩, hm⟩
      | _ => cases h
    | _ =>
      obtain ⟨rfl, rfl⟩ : next = next' ∧ none = res := by
        simpa [LuaValue.isnumber, LuaValue.isstring, LuaValue.isboolean, LuaValue.istable] using h
      exact ⟨by simp [LuaValue.istable], le_refl _, rfl, by simp⟩

theorem converted_arg {fuel next next' : ℕ} {args : List LuaValue} {d : ℕ × LuaDataMessage}
    (h : convertData heap addr fuel next args 2 false = .ok (next', some d)) :
    ∃ v, index2adr args 2 = some v := by
  cases hv : index2adr args 2 with
  | some v => exact ⟨v, rfl⟩
  | none =>
    cases fuel with
    | zero => cases h
    | succ fuel =>
      simp [convertData, hv, LuaValue.isnumber, LuaValue.isstring, LuaValue.isboolean,
        LuaValue.istable] at h

/-- The message that `Send_Data` accepts comes out again exactly if the value rejects nothing. -/
theorem deliverable_iff (ha : Function.Injective addr) {fuel next next' a : ℕ} {args : List LuaValue}
    {v : LuaValue} {m : LuaDataMessage} (hv : index2adr args 2 = some v)
    (h : convertData heap addr fuel next args 2 false = .ok (next', some (a, m))) :
    Deliverable m ↔ ¬ Rejects heap v := by
  obtain ⟨_, _, _, hres⟩ := convertsSafely ha fuel hv (fun _ => index2adr_argument hv) h
  have hd := (hres a m rfl).2.1
  rwa [source, ite_self] at hd

end Convert

end LuaTT.DataMessage
