import LuaTT.Library.Descent
import LuaTT.Thread.ChannelDelivery
import LuaTT.Thread.Conversion

/-! When the recursion of `convertData` ends. It follows the references from a table to the tables among
its values, so it ends exactly if none of them leads back; and a key that is a table needs a table as its
value, since the call for the key reads the entries of the value. -/
namespace LuaTT.DataMessage
open Lua LuaDataMessage Descent Relation
set_option autoImplicit false

/-! ## The references between tables -/

/-- The second table is a value of the first. -/
def Holds (heap : Heap) (r r' : ℕ) : Prop := ∃ e ∈ heap.entries r, e.2 = .table r'

/-- Where a key is a table, its value is one. -/
def KeysPaired (heap : Heap) (r : ℕ) : Prop := ∀ e ∈ heap.entries r, e.1.istable → e.2.istable

/-- No table that the value leads to leads back to itself, and their keys are paired. -/
def Walkable (heap : Heap) (v : LuaValue) : Prop :=
  ∀ r, v = .table r → ∀ r', ReflTransGen (Holds heap) r r' →
    KeysPaired heap r' ∧ ¬ TransGen (Holds heap) r' r'

/-- A state has finitely many tables with entries. -/
def FinitelyMany (heap : Heap) : Prop := {r | heap.entries r ≠ []}.Finite

section Heap
variable {heap : Heap}

theorem exists_ref {v : LuaValue} (h : v.istable = true) : ∃ r, v = .table r := by
  cases v with
  | table r => exact ⟨r, rfl⟩
  | _ => simp [LuaValue.istable] at h

theorem finite_held (heap : Heap) (r : ℕ) : {r' | Holds heap r r'}.Finite := by
  have hvalues : {v | v ∈ (heap.entries r).map Prod.snd}.Finite := List.finite_toSet _
  have hinj : Function.Injective LuaValue.table := fun a b h => LuaValue.table.inj h
  refine (hvalues.preimage hinj.injOn).subset ?_
  rintro r' ⟨e, he, hr⟩
  have hmem : e.2 ∈ (heap.entries r).map Prod.snd := List.mem_map_of_mem he
  rw [hr] at hmem
  exact hmem

/-- What is below a table is a value of a table with entries. -/
theorem finite_below (hfin : FinitelyMany heap) (r : ℕ) : (below (Holds heap) r).Finite := by
  refine (hfin.biUnion fun r' _ => finite_held heap r').subset ?_
  intro c hc
  obtain ⟨b, _, e, he, hr⟩ := TransGen.tail'_iff.mp hc
  exact Set.mem_biUnion (List.ne_nil_of_mem he : heap.entries b ≠ []) ⟨e, he, hr⟩

/-! ## Fuel and depth -/

/-- A conversion that returns has been to every table below, each with less fuel. -/
theorem Returns.within {fuel r : ℕ} (h : Returns heap fuel (.table r) (.table r)) :
    Within (KeysPaired heap) (Holds heap) fuel r := by
  induction fuel generalizing r with
  | zero => exact h
  | succ fuel ih =>
    obtain ⟨r₁, hr₁, hentries⟩ := h rfl
    obtain rfl := LuaValue.table.inj hr₁
    refine ⟨fun e he htable => ?_, fun r' ⟨e, he, hr⟩ => ?_⟩
    · have hkey := (hentries e he).1
      cases fuel with
      | zero => exact hkey.elim
      | succ fuel =>
        obtain ⟨r', hr, _⟩ := hkey htable
        rw [hr]
        rfl
    · have hvalue := (hentries e he).2
      rw [hr] at hvalue
      exact ih hvalue

theorem returns_of_within {n r : ℕ} (h : Within (KeysPaired heap) (Holds heap) n r) :
    Returns heap (n + 1) (.table r) (.table r) := by
  induction n generalizing r with
  | zero => exact h.elim
  | succ n ih =>
    obtain ⟨hpaired, hheld⟩ := h
    refine fun _ => ⟨r, rfl, fun e he => ?_⟩
    by_cases hvalue : e.2.istable
    · obtain ⟨r', hr⟩ := exists_ref hvalue
      have hreturns := ih (hheld r' ⟨e, he, hr⟩)
      rw [hr]
      -- The call for the key reads the same entries as the call for the value.
      exact ⟨fun _ => hreturns rfl, hreturns⟩
    · have hkey : ¬ e.1.istable := fun ht => hvalue (hpaired e he ht)
      exact ⟨returns_of_not_table hkey, returns_of_not_table hvalue⟩

/-- Some fuel is enough exactly for the walkable values. -/
theorem exists_returns_iff (hfin : FinitelyMany heap) (v : LuaValue) :
    (∃ fuel, Returns heap fuel v v) ↔ Walkable heap v := by
  constructor
  · rintro ⟨fuel, h⟩ r rfl
    exact (exists_within_iff (finite_below hfin r)).mp ⟨fuel, h.within⟩
  · intro h
    by_cases ht : v.istable
    · obtain ⟨r, rfl⟩ := exists_ref ht
      obtain ⟨n, hn⟩ := (exists_within_iff (finite_below hfin r)).mpr (h r rfl)
      exact ⟨n + 1, returns_of_within hn⟩
    · exact ⟨1, returns_of_not_table ht⟩

end Heap
end LuaTT.DataMessage

namespace LuaTT.Channel
open Lua DataMessage Sync Descent Relation
set_option autoImplicit false

/-! ## `Lua_Send_Data` -/

variable {τ : Type} {unwinds : Bool} {heap : Heap} {addr : ℕ → ℕ} {next : ℕ}
  {args : List LuaValue} {s : State τ} {t : τ}

/-- A call that gets past its arguments runs its body with the lock. -/
theorem enter_locked {needed : ℕ} {channel : Bytes} {body : Bytes → State τ → Option (State τ × Report)}
    (hd : s.demanding t = none) (hfree : s.locker.owner = none) (hlen : ¬ args.length < needed)
    (hc : channelArg args = some channel) :
    s.enter t needed args body = body channel { s with locker := ⟨some t, s.locker.cond⟩ } := by
  have hlock : s.locker.lock t = some ⟨some t, s.locker.cond⟩ := Monitor.lock_eq_some.mpr ⟨hfree, rfl⟩
  rw [State.enter, if_neg (not_not.mpr hd), if_neg hlen, hc]
  simp only [hlock, Option.bind_some]

theorem enter_rejected {needed : ℕ} (hd : s.demanding t = none)
    (h : args.length < needed ∨ channelArg args = none) :
    ∃ r, r.result.isSome ∧ ∀ body, s.enter t needed args body = some (s, r) := by
  simp only [State.enter, if_neg (not_not.mpr hd)]
  by_cases hlen : args.length < needed
  · exact ⟨_, rfl, fun body => by rw [if_pos hlen]⟩
  · have hc := h.resolve_left hlen
    exact ⟨_, rfl, fun body => by rw [if_neg hlen, hc]⟩

/-- What the call sends may be walked, if it has a second argument at all. -/
def WalkableArgument (heap : Heap) (args : List LuaValue) : Prop :=
  ∀ v, index2adr args 2 = some v → Walkable heap v

/-- The conversion of the second argument returns. -/
def ConversionReturns (heap : Heap) (args : List LuaValue) (addr : ℕ → ℕ) (next : ℕ) : Prop :=
  ∃ fuel x, convertData heap addr fuel next args 2 false = .ok x

variable [DecidableEq τ]

/-- The call returns, with an error or without, and nobody owns `m_locker` then. -/
def SendReturns (unwinds : Bool) (s : State τ) (t : τ) (heap : Heap) (args : List LuaValue)
    (addr : ℕ → ℕ) (next : ℕ) : Prop :=
  ∃ fuel s' r, s.perform unwinds (.sendData t heap args addr fuel next) = some (s', r) ∧
    r.result.isSome ∧ s'.locker.owner = none

theorem conversionReturns_iff (hfin : FinitelyMany heap) :
    ConversionReturns heap args addr next ↔ WalkableArgument heap args := by
  unfold ConversionReturns WalkableArgument
  cases hv : index2adr args 2 with
  | none =>
    have hnil : convertData heap addr 1 next args 2 false = .ok (next, none) := by
      simp [convertData, hv, LuaValue.isnumber, LuaValue.isstring, LuaValue.isboolean, LuaValue.istable]
    exact iff_of_true ⟨1, _, hnil⟩ fun v h => by cases h
  | some v =>
    have hreturns : ∀ fuel, (∃ x, convertData heap addr fuel next args 2 false = .ok x) ↔
        Returns heap fuel v v := fun fuel => convertData_returns hv fun _ => index2adr_argument hv
    simp only [hreturns, exists_returns_iff hfin, Option.some.injEq, forall_eq']

theorem leave_unlocks (unwinds : Bool) {o : Outcome} (hown : s.locker.owner = some t) (hok : o.result.isOk) :
    ∃ s', s.leave unwinds t o = some (s', o.report) ∧ s'.locker.owner = none := by
  have hunlock : s.locker.unlock t = some { s.locker with owner := none } :=
    Monitor.unlock_eq_some.mpr ⟨hown, rfl⟩
  simp only [State.leave, hok, Bool.true_or, if_true, hunlock]
  exact ⟨_, rfl, rfl⟩

theorem sendSection_isOk (messages : ChannelMap) (channel : Bytes) (data : Option LuaDataMessage) :
    (sendSection messages channel data).result.isOk := by
  cases data <;> rfl

/-- Once it has the lock, `Send_Data` returns exactly if its conversion does. -/
theorem sendReturns_iff (hd : s.demanding t = none) (hfree : s.locker.owner = none)
    (hlen : ¬ args.length < 2) {channel : Bytes} (hc : channelArg args = some channel) :
    SendReturns unwinds s t heap args addr next ↔ ConversionReturns heap args addr next := by
  simp only [SendReturns, State.perform, enter_locked hd hfree hlen hc]
  constructor
  · rintro ⟨fuel, s', r, h, _⟩
    cases hconv : convertData heap addr fuel next args 2 false with
    | error e => simp [hconv] at h
    | ok x => exact ⟨fuel, x, hconv⟩
  · rintro ⟨fuel, ⟨next', data⟩, hconv⟩
    let held : Monitor τ := ⟨some t, s.locker.cond⟩
    let locked : State τ := { s with locker := if data.isSome then held.notifyAll else held }
    have hown : locked.locker.owner = some t := by
      simp only [locked]
      split_ifs <;> rfl
    obtain ⟨s', hs', hfree'⟩ := leave_unlocks unwinds hown
      (sendSection_isOk s.messages channel (data.map Prod.snd))
    refine ⟨fuel, s', (sendSection s.messages channel (data.map Prod.snd)).report, ?_, rfl, hfree'⟩
    rw [hconv]
    exact hs'

/-- Both end exactly where no table leads back to itself and the keys are paired; `Send_Data` also where
it does not get as far as the conversion. -/
theorem send_data_terminates (hfin : FinitelyMany heap) (args : List LuaValue) (addr : ℕ → ℕ) (next : ℕ) :
    (ConversionReturns heap args addr next ↔ WalkableArgument heap args) ∧
      ∀ (s : State τ) t, s.demanding t = none → s.locker.owner = none →
        (SendReturns unwinds s t heap args addr next ↔
          args.length < 2 ∨ channelArg args = none ∨ WalkableArgument heap args) := by
  refine ⟨conversionReturns_iff hfin, fun s t hd hfree => ?_⟩
  by_cases hrejected : args.length < 2 ∨ channelArg args = none
  · refine iff_of_true ⟨0, s, ?_⟩ (or_assoc.mp (.inl hrejected))
    obtain ⟨r, hres, hr⟩ := enter_rejected hd hrejected
    exact ⟨r, by rw [State.perform, hr], hres, hfree⟩
  · obtain ⟨hlen, hc⟩ := not_or.mp hrejected
    obtain ⟨channel, hc⟩ := Option.ne_none_iff_exists'.mp hc
    rw [sendReturns_iff hd hfree hlen hc, conversionReturns_iff hfin]
    simp [hlen, hc]

/-! ## Two tables -/

/-- A state whose only table with entries is table 0. -/
def oneTable (es : List (LuaValue × LuaValue)) (hk : ∀ e ∈ es, e.1.isKey)
    (hd : es.Pairwise fun e e' => e.1.rawequal e'.1 = false) : Heap where
  entries r := if r = 0 then es else []
  isKey r e he := by
    split_ifs at he
    · exact hk e he
    · cases he
  distinct r := by
    split_ifs
    · exact hd
    · exact .nil

theorem finitelyMany_oneTable (es : List (LuaValue × LuaValue)) (hk : ∀ e ∈ es, e.1.isKey)
    (hd : es.Pairwise fun e e' => e.1.rawequal e'.1 = false) : FinitelyMany (oneTable es hk hd) := by
  refine (Set.finite_singleton 0).subset fun r hr => ?_
  by_contra h
  exact hr (if_neg h)

/-- `{[true] = u, [false] = u}`, where `u` is an empty table. -/
def sharingHeap : Heap :=
  oneTable [(.boolean true, .table 1), (.boolean false, .table 1)] (by decide) (by decide)

theorem sharing_holds {r r' : ℕ} (h : Holds sharingHeap r r') : r = 0 ∧ r' = 1 := by
  obtain ⟨e, he, hr⟩ := h
  simp only [sharingHeap, oneTable] at he
  split_ifs at he with h0
  · simp only [List.mem_cons, List.not_mem_nil, or_false] at he
    rcases he with rfl | rfl <;> exact ⟨h0, (LuaValue.table.inj hr).symm⟩
  · cases he

theorem walkable_sharing : Walkable sharingHeap (.table 0) := by
  intro r _ r' _
  constructor
  · intro e he htable
    have hpaired : ∀ e ∈ sharingHeap.entries 0, e.1.istable → e.2.istable := by decide
    by_cases h0 : r' = 0
    · exact hpaired e (h0 ▸ he) htable
    · simp [sharingHeap, oneTable, h0] at he
  · intro hcycle
    obtain ⟨b, hfirst, _⟩ := TransGen.head'_iff.mp hcycle
    obtain ⟨c, _, hlast⟩ := TransGen.tail'_iff.mp hcycle
    have hfrom := (sharing_holds hfirst).1
    have hto := (sharing_holds hlast).2
    omega

theorem send_data_terminates_sharing :
    ConversionReturns sharingHeap [.string [99], .table 0] id 0 ∧
      SendReturns true (initial : State Unit) () sharingHeap [.string [99], .table 0] id 0 := by
  have hwalk : WalkableArgument sharingHeap [.string [99], .table 0] := by
    intro v hv
    obtain rfl : LuaValue.table 0 = v := by simpa [index2adr] using hv
    exact walkable_sharing
  have hends : (ConversionReturns sharingHeap [.string [99], .table 0] id 0 ↔ _) ∧
      ∀ (s : State Unit) t, _ → _ → (SendReturns true s t sharingHeap _ id 0 ↔ _) :=
    send_data_terminates (finitelyMany_oneTable _ _ _) [.string [99], .table 0] id 0
  exact ⟨hends.1.mpr hwalk, (hends.2 initial () rfl rfl).mpr (.inr (.inr hwalk))⟩

/-- `t.t = t`, as table 0. -/
def cyclicHeap : Heap := oneTable [(.string [116], .table 0)] (by decide) (by decide)

theorem finitelyMany_cyclic : FinitelyMany cyclicHeap := finitelyMany_oneTable _ _ _

/-- The recursion comes back to the table with less fuel each time. -/
theorem cyclic_outOfFuel (fuel : ℕ) {next : ℕ} {stack : List LuaValue} {n : ℤ} {insideTable : Bool}
    (hv : index2adr stack n = some (.table 0))
    (hw : index2adr (stack ++ [.nil]) (if insideTable then stack.length else n) = some (.table 0)) :
    convertData cyclicHeap addr fuel next stack n insideTable = .error .outOfFuel := by
  induction fuel generalizing next stack n insideTable with
  | zero => rfl
  | succ fuel ih =>
    have hentries : cyclicHeap.entries 0 = [(.string [116], .table 0)] := rfl
    have hentry : ∀ acc : ℕ × LuaDataMessage.TableType,
        convertEntry cyclicHeap addr fuel stack acc (.string [116], .table 0) = .error .outOfFuel := by
      intro acc
      cases fuel with
      | zero => rfl
      | succ fuel =>
        have hkey : ∃ x, convertData cyclicHeap addr (fuel + 1) acc.1
            (stack ++ [.string [116], .table 0]) (-2) true = .ok x :=
          (convertData_returns (index2adr_below_top stack _ _) fun _ => index2adr_gettop stack _ _).mpr
            (returns_of_not_table (by decide))
        obtain ⟨x, hx⟩ := hkey
        have hvalue : convertData cyclicHeap addr (fuel + 1) x.1
            (stack ++ [.string [116], .table 0]) (-1) true = .error .outOfFuel :=
          ih (index2adr_value stack _ _) (index2adr_gettop stack _ _)
        simp only [convertEntry, hx, hvalue, bind, Except.bind]
    rw [convertData_succ fuel next stack n insideTable hv fun _ => hw]
    simp only [LuaValue.isnumber, LuaValue.isstring, LuaValue.isboolean, LuaValue.istable, hentries,
      List.foldlM_cons, hentry]
    rfl

/-- `Send_Data("c", t)` converts for ever, with the lock held. -/
theorem send_data_loops :
    (∀ fuel, convertData cyclicHeap id fuel 0 [.string [99], .table 0] 2 false = .error .outOfFuel) ∧
    (¬ ∀ (heap : Heap) (args : List LuaValue) addr next, FinitelyMany heap →
      ConversionReturns heap args addr next) ∧
    ¬ ∀ (heap : Heap) (args : List LuaValue) addr next (s : State Unit) t, FinitelyMany heap →
      s.demanding t = none → s.locker.owner = none → SendReturns true s t heap args addr next := by
  have hloop : ∀ fuel, convertData cyclicHeap id fuel 0 [.string [99], .table 0] 2 false =
      .error .outOfFuel := fun fuel => cyclic_outOfFuel fuel rfl rfl
  have hnot : ¬ ConversionReturns cyclicHeap [.string [99], .table 0] id 0 := by
    rintro ⟨fuel, x, hx⟩
    rw [hloop fuel] at hx
    cases hx
  refine ⟨hloop, fun h => hnot (h _ _ _ _ finitelyMany_cyclic), fun h => hnot ?_⟩
  exact (sendReturns_iff (s := initial) rfl rfl (by decide) rfl).mp
    (h _ _ _ _ initial () finitelyMany_cyclic rfl rfl)

end LuaTT.Channel
