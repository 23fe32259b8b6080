import LuaTT.Manager.DispatchVerdict
import LuaTT.Manager.ReentrantFrames

/-! Which verdicts depend on the completed hooks alone. In place of a result, a hook that raises leaves the
value of `OnError`, or what is on top of the frame when its error has been printed, for the dispatcher to
read. -/
namespace LuaTT.Reentrancy
open Lua LState Dispatch Voting
set_option autoImplicit false

variable {M : Type} (p : Program M)

/-! ## What the hooks have to say -/

/-- A state's first result, or what is read in its place. -/
def Visit.ballot (v : Visit M) : Option (Ballot LuaValue) :=
  match v.outcome with
  | none => none
  | some (.ok vs) => some (.answer (vs.headD .nil))
  | some (.error K) => some (.stray (residue p.toCode K.mem K))

def ballots (vs : List (Visit M)) : List (Ballot LuaValue) := vs.filterMap (Visit.ballot p)

/-- All results, or what the frame then has more than before. -/
def Visit.damageBallot (v : Visit M) : Option (Ballot (List LuaValue)) :=
  match v.outcome with
  | none => none
  | some (.ok vs) => some (.answer vs)
  | some (.error K) => some (.stray ((K.stack ++ leftover p.toCode K.mem).drop v.state.stack.length))

def damageBallots (vs : List (Visit M)) : List (Ballot (List LuaValue)) :=
  vs.filterMap (Visit.damageBallot p)

/-- What the completed hooks decide. -/
def completedVerdict (e : Event) (vs : List (Visit M)) : Verdict :=
  match e with
  | .daDamageRequest _ _ amount warhead _ _ =>
    .damage ((answers (damageBallots p vs)).foldl applyDamage ⟨true, amount, warhead⟩)
  | e => verdictOf e (answers (ballots p vs))

/-- Hooks that raise do not show in the verdict. -/
def IsolatedWhen (e : Event) (vs : List (Visit M)) : Prop :=
  match e with
  | .chat .. | .radio .. | .refill .. | .stockDamage .. | .ttDamage .. => VetoAgrees passInt (ballots p vs)
  | .daSuicide .. | .daRefill .. | .daTeamChangeRequest .. =>
    VetoAgrees LuaValue.toboolean (ballots p vs)
  | .purchase2 .. => LastAgrees nonzero (-1) (ballots p vs)
  | .conAc .. | .daConnectionRequest .. => FirstAgrees refusal (bytes "CONTINUE") (ballots p vs)
  | .daDamageRequest _ _ amount warhead _ _ =>
    VetoAgrees passDamage (damageBallots p vs) ∧ LastAgrees newDamage amount (damageBallots p vs) ∧
      LastAgrees newWarhead warhead (damageBallots p vs)
  | .generic _ params =>
    match params.ret with
    | .useBool => GenericAgrees params.defaultReturn (ballots p vs)
    | .useInt => LastAgrees integer params.defaultReturn (ballots p vs)
    | _ => True
  | _ => True

/-! ## What the dispatchers read -/

section Loop
variable {perf : Act M → World M → Result M Verdict} {i : ℕ} {w : World M}

variable (perf) in
theorem callHook_top {s args : List LuaValue} {f : LuaValue} (h : (w.state i).stack = s ++ [f] ++ args) :
    ((callHook p perf i args.length (some 1) w).world.state i).top =
      match (callHook p perf i args.length (some 1) w).value with
      | .ok vs => vs.headD .nil
      | .error K => residue p.toCode K.mem K := by
  have hstack := pcall_stack p perf (some 1) h
  unfold callHook
  dsimp only
  cases hr : (pcall p perf i args.length (some 1) w).value with
  | ok vs =>
    have hone : adjustResults (some 1) vs = [vs.headD .nil] := by
      cases vs <;> simp [adjustResults]
    rw [hr, pushed, hone] at hstack
    exact top_of_stack_append hstack
  | error e =>
    obtain ⟨hframe, hbelow⟩ := report_frame p perf i (pcall p perf i args.length (some 1) w).world
    simp only [residue]
    simp only [leftover] at hframe
    split_ifs at hframe ⊢
    · rw [List.append_nil] at hframe
      rw [top, top, hframe, hbelow]
    · exact top_of_stack_append hframe

variable {β γ : Type} {d : Dispatcher M β} {ballot : Visit M → Option (Ballot γ)} {combine : β → γ → β}

/-- The dispatcher combines the ballots of the states. -/
structure Reads (perf : Act M → World M → Result M Verdict) (d : Dispatcher M β)
    (ballot : Visit M → Option (Ballot γ)) (combine : β → γ → β) : Prop where
  quits : d.quits = false
  absent (L : LState M) : ballot ⟨L, none⟩ = none
  present (i : ℕ) (w : World M) (L : LState M) (f : LuaValue) (ret : β)
    (h : (w.state i).stack = L.stack ++ [f] ++ d.args ret) :
    ∃ b, ballot ⟨L, some (callHook p perf i (d.args ret).length d.nresults w).value⟩ = some b ∧
      d.read (((callHook p perf i (d.args ret).length d.nresults w).world.state i).gettop - L.gettop)
        ((callHook p perf i (d.args ret).length d.nresults w).world.state i) ret = combine ret b.value

theorem turn_reads (h : Reads p perf d ballot combine) (i : ℕ) (w : World M) (ret : β) :
    (ballot (turn p perf d i w ret).visit = none ∧ (turn p perf d i w ret).value = ret ∧
        (turn p perf d i w ret).goesOn = true) ∨
      ∃ b, ballot (turn p perf d i w ret).visit = some b ∧
        (turn p perf d i w ret).value = combine ret b.value ∧
        (turn p perf d i w ret).goesOn = !d.stops (combine ret b.value) := by
  have hframe : (((w.modify i fun L => L.getglobal p.toCode d.hook).modify i
      fun L => L.pushAll (d.args ret)).state i).stack =
      (w.state i).stack ++ [p.getglobal (w.state i).mem d.hook] ++ d.args ret := by
    rw [World.modify_state_self, World.modify_state_self]
    rfl
  obtain ⟨b, hb, hread⟩ := h.present i _ (w.state i) _ ret hframe
  unfold turn
  dsimp only
  split_ifs with _ hq
  · rw [h.quits] at hq
    cases hq
  all_goals first
    | exact .inr ⟨b, hb, hread, by rw [hread]⟩
    | exact .inl ⟨h.absent _, rfl, rfl⟩

theorem askAll_reads (h : Reads p perf d ballot combine) (hgo : ∀ ret, d.stops ret = false) (is : List ℕ)
    (w : World M) (ret : β) : (askAll p perf d is w ret).value =
      (values ((askAll p perf d is w ret).visits.filterMap ballot)).foldl combine ret := by
  induction is generalizing w ret with
  | nil => rfl
  | cons i is ih =>
    unfold askAll
    dsimp only
    rcases turn_reads p h i w ret with ⟨hb, hv, hg⟩ | ⟨b, hb, hv, hg⟩
    · rw [if_pos hg]
      simp only [List.filterMap_cons, hb]
      rw [ih, hv]
    · have hg' : (turn p perf d i w ret).goesOn = true := by rw [hg, hgo]; rfl
      rw [if_pos hg']
      simp only [List.filterMap_cons, hb]
      rw [ih, hv]
      rfl

/-! ## The families -/

theorem reads_top (hq : d.quits = false) (hn : d.nresults = some 1) {combine : β → LuaValue → β}
    (hread : ∀ n L ret, d.read n L ret = combine ret L.top) : Reads p perf d (Visit.ballot p) combine where
  quits := hq
  absent _ := rfl
  present i w L f ret h := by
    have htop := callHook_top p perf h
    rw [hn]
    simp only [hread, Visit.ballot]
    cases hr : (callHook p perf i (d.args ret).length (some 1) w).value with
    | ok vs =>
      rw [hr] at htop
      exact ⟨_, rfl, by rw [htop]; rfl⟩
    | error K =>
      rw [hr] at htop
      exact ⟨_, rfl, by rw [htop]; rfl⟩

/-- Only a loop that has come to a refusal stops, and there is none before. -/
theorem askAll_refusal (name : Bytes) (args : List LuaValue) (is : List ℕ) (w : World M) :
    (askAll p perf (connection M name args) is w (bytes "CONTINUE")).value =
      firstPick refusal (bytes "CONTINUE")
        (values (ballots p (askAll p perf (connection M name args) is w (bytes "CONTINUE")).visits)) := by
  have h : Reads p perf (connection M name args) (Visit.ballot p) fun _ v =>
    v.tostring.getD (bytes "CONTINUE") := reads_top p rfl rfl fun _ _ _ => rfl
  unfold ballots
  induction is generalizing w with
  | nil => rfl
  | cons i is ih =>
    unfold askAll
    dsimp only
    rcases turn_reads p h i w (bytes "CONTINUE") with ⟨hb, hv, hg⟩ | ⟨b, hb, hv, hg⟩
    · rw [if_pos hg]
      simp only [List.filterMap_cons, hb]
      rw [hv, ih]
    · cases hr : refusal b.value with
      | none =>
        have hgo := refusal_eq_none.mp hr
        rw [hgo] at hv hg
        rw [if_pos (hg.trans (by simp [connection]))]
        simp only [List.filterMap_cons, hb]
        rw [hv, ih]
        exact (firstPick_cons_none _ hr).symm
      | some s =>
        have hs := getD_of_refusal hr
        have hne : s ≠ bytes "CONTINUE" := fun hc => by
          rw [hc] at hs
          rw [refusal_eq_none.mpr hs] at hr
          cases hr
        rw [hs] at hv hg
        rw [if_neg (by rw [hg]; simp [connection, hne])]
        simp only [List.filterMap_cons, hb]
        rw [hv]
        exact (firstPick_cons_some _ hr).symm

theorem reads_damage (victim damager : Option ℤ) (scale : Float32) (type : ℤ) :
    Reads p perf (damage M victim damager scale type) (Visit.damageBallot p) applyDamage where
  quits := rfl
  absent _ := rfl
  present i w L f ret h := by
    have hframe := callHook_frame p perf none h
    simp only [damage, Visit.damageBallot] at hframe ⊢
    cases hr : (callHook p perf i (damageArgs victim damager scale type ret).length none w).value with
    | ok vs =>
      rw [hr] at hframe
      refine ⟨_, rfl, ?_⟩
      have hlen : ((callHook p perf i (damageArgs victim damager scale type ret).length none w).world.state
          i).gettop - L.gettop = vs.length := by
        simp [gettop, hframe, adjustResults]
      rw [hlen]
      exact readDamage_eq hframe ret
    | error K =>
      rw [hr] at hframe
      refine ⟨_, rfl, ?_⟩
      have hlen : ((callHook p perf i (damageArgs victim damager scale type ret).length none w).world.state
          i).gettop - L.gettop = ((K.stack ++ leftover p.toCode K.mem).drop L.stack.length).length := by
        rw [gettop, hframe, List.length_drop]
        rfl
      rw [hlen]
      apply readDamage_eq (s := (K.stack ++ leftover p.toCode K.mem).take L.stack.length)
      rw [List.take_append_drop]
      exact hframe

theorem askAll_constant (hread : ∀ n L ret, d.read n L ret = ret) (is : List ℕ) (w : World M) (ret : β) :
    (askAll p perf d is w ret).value = ret := by
  have hturn : ∀ i w ret, (turn p perf d i w ret).value = ret := by
    intro i w ret
    unfold turn
    dsimp only
    split_ifs <;> first | rfl | exact hread _ _ _
  induction is generalizing w with
  | nil => rfl
  | cons i is ih =>
    unfold askAll
    dsimp only
    split_ifs
    · rw [hturn, ih]
    · exact hturn i w ret

/-! ## All dispatchers -/

variable (perf)

theorem verdict_value {β : Type} (name : Bytes) (args : List LuaValue) (combine : β → LuaValue → β)
    (is : List ℕ) (w : World M) (ret : β) : (askAll p perf (verdict M name args combine) is w ret).value =
      (values (ballots p (askAll p perf (verdict M name args combine) is w ret).visits)).foldl combine ret :=
  askAll_reads p (reads_top p rfl rfl fun _ _ _ => rfl) (fun _ => rfl) is w ret

/-- A verdict of yes or no, as that of a number that is not 0. -/
theorem intVerdict_isolated (name : Bytes) (args : List LuaValue) (is : List ℕ) (w : World M) :
    Verdict.bool (decide ((askAll p perf (verdict M name args combineInt) is w 1).value ≠ 0)) =
        .bool ((answers (ballots p (askAll p perf (verdict M name args combineInt) is w 1).visits)).all passInt) ↔
      VetoAgrees passInt (ballots p (askAll p perf (verdict M name args combineInt) is w 1).visits) := by
  rw [verdict_value, foldl_combineInt Int.one_ne_zero, Verdict.bool.injEq, all_values_eq]

theorem boolVerdict_isolated (name : Bytes) (args : List LuaValue) (is : List ℕ) (w : World M) :
    Verdict.bool (askAll p perf (verdict M name args combineBool) is w true).value =
        .bool ((answers (ballots p (askAll p perf (verdict M name args combineBool) is w true).visits)).all
          LuaValue.toboolean) ↔
      VetoAgrees LuaValue.toboolean
        (ballots p (askAll p perf (verdict M name args combineBool) is w true).visits) := by
  rw [verdict_value, foldl_combineBool, Bool.true_and, Verdict.bool.injEq, all_values_eq]

theorem choice_isolated (name : Bytes) (args : List LuaValue) (is : List ℕ) (w : World M) :
    Verdict.int (askAll p perf (verdict M name args combineNonzero) is w (-1)).value =
        .int (lastPick nonzero (-1)
          (answers (ballots p (askAll p perf (verdict M name args combineNonzero) is w (-1)).visits))) ↔
      LastAgrees nonzero (-1)
        (ballots p (askAll p perf (verdict M name args combineNonzero) is w (-1)).visits) := by
  rw [verdict_value, foldl_combineNonzero, Verdict.int.injEq, lastPick_values_eq]

theorem connection_isolated (name : Bytes) (args : List LuaValue) (is : List ℕ) (w : World M) :
    Verdict.string (askAll p perf (connection M name args) is w (bytes "CONTINUE")).value =
        .string (firstPick refusal (bytes "CONTINUE") (answers (ballots p
          (askAll p perf (connection M name args) is w (bytes "CONTINUE")).visits))) ↔
      FirstAgrees refusal (bytes "CONTINUE")
        (ballots p (askAll p perf (connection M name args) is w (bytes "CONTINUE")).visits) := by
  rw [askAll_refusal, Verdict.string.injEq, firstPick_values_eq]

theorem damage_isolated (victim damager : Option ℤ) (scale : Float32) (type : ℤ) (start : DamageRequest)
    (hstart : start.allow = true) (is : List ℕ) (w : World M) :
    let vs := (askAll p perf (damage M victim damager scale type) is w start).visits
    (askAll p perf (damage M victim damager scale type) is w start).value =
        (answers (damageBallots p vs)).foldl applyDamage start ↔
      VetoAgrees passDamage (damageBallots p vs) ∧ LastAgrees newDamage start.damage (damageBallots p vs) ∧
        LastAgrees newWarhead start.warhead (damageBallots p vs) := by
  intro vs
  rw [askAll_reads p (reads_damage p victim damager scale type) (fun _ => rfl) is w start]
  change (values (damageBallots p vs)).foldl applyDamage start = _ ↔ _
  rw [foldl_applyDamage, foldl_applyDamage, DamageRequest.mk.injEq, hstart, Bool.true_and, Bool.true_and,
    all_values_eq, lastPick_values_eq, lastPick_values_eq]

theorem generic_isolated (func : Bytes) (params : GenericParamList) (w : World M) :
    let r := raise p perf (.generic func params) w
    r.value = completedVerdict p (.generic func params) r.visits ↔
      IsolatedWhen p (.generic func params) r.visits := by
  intro r
  have hvalue : r.value = .int (askAll p perf (generic M func params) w.lua w
      (if params.ret ≠ .useNothing then params.defaultReturn else 0)).value := rfl
  have hvisits : r.visits = (askAll p perf (generic M func params) w.lua w
      (if params.ret ≠ .useNothing then params.defaultReturn else 0)).visits := rfl
  simp only [completedVerdict, verdictOf, IsolatedWhen, hvalue, hvisits]
  cases hret : params.ret with
  | useBool =>
    have hreads : Reads p perf (generic M func params) (Visit.ballot p) params.combine :=
      reads_top p rfl (by simp [generic, hret]) fun _ _ _ => rfl
    have hloop := askAll_reads p hreads (fun _ => rfl) w.lua w params.defaultReturn
    simp only [ne_eq, reduceCtorEq, not_false_eq_true, if_true]
    rw [hloop, foldl_combine_useBool params hret, Verdict.int.injEq]
    exact genericBool_values_eq params.defaultReturn (ballots p _)
  | useInt =>
    have hreads : Reads p perf (generic M func params) (Visit.ballot p) params.combine :=
      reads_top p rfl (by simp [generic, hret]) fun _ _ _ => rfl
    have hloop := askAll_reads p hreads (fun _ => rfl) w.lua w params.defaultReturn
    simp only [ne_eq, reduceCtorEq, not_false_eq_true, if_true]
    rw [hloop, foldl_combine_useInt params hret, Verdict.int.injEq]
    exact lastPick_values_eq integer params.defaultReturn (ballots p _)
  | useOther | useNothing =>
    have hconst : ∀ n L ret, (generic M func params).read n L ret = ret := fun n L ret => by
      simp [generic, GenericParamList.combine, hret]
    simp [askAll_constant p hconst]

theorem raise_isolated (e : Event) (w : World M) :
    (raise p perf e w).value = completedVerdict p e (raise p perf e w).visits ↔
      IsolatedWhen p e (raise p perf e w).visits := by
  cases e with
  | chat | radio | refill | stockDamage | ttDamage => exact intVerdict_isolated p perf _ _ _ w
  | daSuicide | daRefill | daTeamChangeRequest => exact boolVerdict_isolated p perf _ _ _ w
  | purchase2 => exact choice_isolated p perf _ _ _ w
  | conAc | daConnectionRequest => exact connection_isolated p perf _ _ _ w
  | daDamageRequest victim damager amount warhead scale type =>
    exact (Verdict.damage.injEq _ _).to_iff.trans
      (damage_isolated p perf victim damager scale type ⟨true, amount, warhead⟩ rfl _ w)
  | generic func params => exact generic_isolated p perf func params w
  | _ => exact iff_of_true rfl trivial

end Loop

/-! ## Runs -/

/-- Whatever the host does, it does as on its own. -/
theorem records_executed (n : ℕ) (a : Act M) (w : World M) : ∀ r ∈ (perform p n a w).records,
    ∃ m, r.verdict = (execute p (perform p m) r.act r.before).value ∧
      r.visits = (execute p (perform p m) r.act r.before).visits := by
  induction n generalizing a w with
  | zero => exact fun r hr => absurd hr List.not_mem_nil
  | succ n ih =>
    have hclosed : Closed (perform p n) fun _ _ l => ∀ r ∈ l,
        ∃ m, r.verdict = (execute p (perform p m) r.act r.before).value ∧
          r.visits = (execute p (perform p m) r.act r.before).visits :=
      ⟨fun _ _ _ r hr => absurd hr List.not_mem_nil, fun huv hvw => List.forall_mem_append.mpr ⟨huv, hvw⟩, ih⟩
    refine List.forall_mem_append.mpr ⟨?_, List.forall_mem_singleton.mpr ⟨n, rfl, rfl⟩⟩
    exact hclosed.execute p (fun _ _ _ r hr => absurd hr List.not_mem_nil) a w

/-- Every hook of the state 0 raises, and those of the others return 0; there is no `OnError`. -/
def raisingProgram : Program Unit where
  getglobal _ name := if name = bytes "OnError" then .nil else .function 0
  setglobal _ _ _ := ()
  call _ _ _ := ((), .ok [])
  refs _ _ := .nil
  getfield _ _ _ := .nil
  getmetatable _ _ := .nil
  setmetatable _ _ _ := ()
  play _ i _ _ := .done () (if i = 0 then .error (.string (bytes "fault")) else .ok [number 0])
  printed _ _ := []

def states (lua : List ℕ) (h : lua.Nodup) : World Unit := ⟨lua, h, fun _ => ⟨(), .nil, [], []⟩⟩

end LuaTT.Reentrancy
