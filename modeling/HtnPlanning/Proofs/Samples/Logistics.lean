import HtnPlanning.Proofs.Linearization.Chain
import HtnPlanning.Proofs.Search.Goal
import HtnPlanning.Proofs.Samples.Templates

namespace HtnPlanning.Logistics

variable {first second supply source : Supply} {parcel destination name : String}
  {n next : Network} {t u : Task} {c : Constraint} {f : String → Constant} {calls : Nat}
  {o : Operator} {s : State} {id i j k : TaskId} {x y : Constant}

/-! ## Tasks -/

def picking (f : String → Constant) (id : TaskId) : Task :=
  ⟨id, "pick", [.const (f "p"), .const (f "from")], true⟩

def carrying (f : String → Constant) (id : TaskId) (name : String) (primitive : Bool) : Task :=
  ⟨id, name, [.const (f "p"), .const (f "from"), .const (f "to")], primitive⟩

def placing (f : String → Constant) (id : TaskId) : Task :=
  ⟨id, "place", [.const (f "p"), .const (f "to")], true⟩

/-! ## Operators -/

def located (x y : Constant) : Atom :=
  ⟨"at", [.const x, .const y]⟩

def holding (x : Constant) : Atom :=
  ⟨"held", [.const x]⟩

theorem pick_closed : pick.Closed :=
  ⟨by decide, by decide⟩

theorem place_closed : place.Closed :=
  ⟨by decide, by decide⟩

def vehicles : List Operator :=
  [drive, fly]

theorem performs_pick : (domain first).1.Performs s (picking f id) (pick.action [f "p", f "from"]) ↔
    s.contains (located (f "p") (f "from")) = true :=
  Domain.performs_given (o := pick) (f := fun x => if x = "p" then f "p" else f "from") rfl
    pick_closed rfl

theorem after_pick : (domain first).1.after s (pick.action [f "p", f "from"]) =
    s.tell (.add (holding (f "p"))) :=
  Domain.after_given (o := pick) (f := fun x => if x = "p" then f "p" else f "from") rfl pick_closed

theorem performs_place : (domain first).1.Performs s (placing f id) (place.action [f "p", f "to"]) ↔
    s.contains (holding (f "p")) = true ∧ s.contains (located (f "p") (f "to")) = true := by
  have grounds : place.precondition.subst (Variable.given fun x => if x = "p" then f "p" else f "to") =
      .and [.atom (holding (f "p")), .atom (located (f "p") (f "to"))] := rfl
  refine (Domain.performs_given (o := place) (f := fun x => if x = "p" then f "p" else f "to") rfl
    place_closed rfl).trans ?_
  rw [grounds]
  simp [State.ask, State.askAll, holding, located, Atom.isGround, Term.isGround]

variable (vehicle : o ∈ vehicles)
include vehicle

theorem closed_vehicle : o.Closed := by
  rcases List.mem_pair.mp vehicle with rfl | rfl
  · exact ⟨by decide, by decide⟩
  · exact ⟨by decide, by decide⟩

theorem operator?_vehicle : (domain first).1.operator? o.name = some o := by
  rcases List.mem_pair.mp vehicle with rfl | rfl <;> rfl

theorem args_vehicle :
    [Term.const (f "p"), .const (f "from"), .const (f "to")] = o.parameters.map (Variable.given f) := by
  rcases List.mem_pair.mp vehicle with rfl | rfl <;> rfl

theorem performs_vehicle : (domain first).1.Performs s
      (carrying f id o.name true) (o.given f) ↔
    s.ask (o.precondition.subst (Variable.given f)) = true :=
  Domain.performs_given (operator?_vehicle vehicle) (closed_vehicle vehicle) (args_vehicle vehicle)

theorem stops_vehicle (fails : s.ask (o.precondition.subst (Variable.given f)) = false) :
    (domain first).1.Stops s (carrying f id o.name true)
      (.preconditionFailed (o.given f) (o.precondition.subst (Variable.given f))) :=
  Domain.stops_given (operator?_vehicle vehicle) (closed_vehicle vehicle) (args_vehicle vehicle) fails

theorem after_vehicle : (domain first).1.after s (o.given f) =
    (s.tell (.delete (located (f "p") (f "from")))).tell (.add (located (f "p") (f "to"))) := by
  have effects : o.effects.map (Effect.given f) =
      [.delete (located (f "p") (f "from")), .add (located (f "p") (f "to"))] := by
    rcases List.mem_pair.mp vehicle with rfl | rfl <;> rfl
  rw [Domain.after_given (operator?_vehicle vehicle) (closed_vehicle vehicle), effects]
  rfl

omit vehicle

/-! ## Methods -/

def stages (f : String → Constant) (i j k : TaskId) (name : String) (primitive : Bool) : List Task :=
  [picking f i, carrying f j name primitive, placing f k]

structure Delivers (n : Network) (f : String → Constant) (i j k : TaskId) (name : String)
    (primitive : Bool) : Prop extends n.Valid where
  tasks : ∀ u, u ∈ n.taskList ↔ u ∈ stages f i j k name primitive
  chain : (stages f i j k name primitive).IsChain fun t u => Orders n.held t.id u.id
  unconditional : ∀ c ∈ n.constraints, c.condition? = none
  ground : n.varList = []

theorem Delivers.mem_taskList {primitive : Bool} (delivers : Delivers n f i j k name primitive) :
    u ∈ n.taskList ↔ u = picking f i ∨ u = carrying f j name primitive ∨ u = placing f k :=
  (delivers.tasks u).trans (by simp [stages])

theorem closed_deliver : (deliverMethod source).1.Closed := by
  have within : ∀ t ∈ (deliverMethod source).1.template.taskList,
      t.varList ⊆ (deliverMethod source).1.pattern.varList := by
    intro t listed
    have listed := mem_deliver.mp listed
    simp only [List.mem_cons, List.not_mem_nil, or_false] at listed
    have parameters : (deliverMethod source).1.pattern.varList = [⟨"p", 0⟩, ⟨"from", 0⟩, ⟨"to", 0⟩] :=
      rfl
    rw [parameters]
    rcases listed with rfl | rfl | rfl
    · exact show [(⟨"p", 0⟩ : Variable), ⟨"from", 0⟩] ⊆ _ by decide
    · exact List.Subset.refl _
    · exact show [(⟨"p", 0⟩ : Variable), ⟨"to", 0⟩] ⊆ _ by decide
  intro v inTemplate
  rcases Network.mem_varList.mp inTemplate with ⟨t, listed, inTask⟩ | ⟨c, held, inCondition⟩
  · exact within t listed inTask
  · rcases mem_deliver_constraints.mp held with rfl | rfl <;> cases inCondition

theorem orders_deliver : Orders (deliverMethod source).1.template.held ⟨source.task⟩ ⟨source.task + 1⟩ ∧
    Orders (deliverMethod source).1.template.held ⟨source.task + 1⟩ ⟨source.task + 2⟩ :=
  ⟨.of_precedence (mem_deliver_constraints.mpr (.inl rfl)),
    .of_precedence (mem_deliver_constraints.mpr (.inr rfl))⟩

theorem delivers_deliver (only : ∀ u ∈ n.taskList, u.id = t.id) (free : ∀ c, c ∉ n.constraints)
    (ground : n.varList = []) (valid : next.Valid)
    (instantiates : n.Instantiates t (deliverMethod source).1 f supply next) :
    ∃ i j k, Delivers next f i j k "transport" false := by
  let issued := (deliverMethod source).1.template.issued (supply.copied (deliverMethod source).1)
  refine ⟨issued ⟨source.task⟩, issued ⟨source.task + 1⟩, issued ⟨source.task + 2⟩, valid,
    fun u => ?_, ?_, ?_, instantiates.varList_eq_nil ground⟩
  · exact instantiates.mem_taskList_of_only only fun v => mem_deliver
  · simp only [stages, List.isChain_cons_cons, List.isChain_singleton, and_true, instantiates.orders]
    exact ⟨.inr ⟨_, _, orders_deliver.1, rfl, rfl⟩, .inr ⟨_, _, orders_deliver.2, rfl, rfl⟩⟩
  · intro d held
    rcases (instantiates.constraints d).mp held with ⟨c, old, -⟩ | ⟨c, own, rfl⟩
    · exact absurd old (free c)
    · rcases mem_deliver_constraints.mp own with rfl | rfl <;> rfl

theorem template_transport {operator : String} : (transportMethod name operator source).1.template =
    .single ⟨⟨source.task⟩, operator, [.ofSymbol "?p", .ofSymbol "?from", .ofSymbol "?to"], true⟩ :=
  rfl

theorem closed_transport {operator : String} : (transportMethod name operator source).1.Closed :=
  fun _ inTemplate => Network.mem_varList_single.mp inTemplate

theorem delivers_transport (delivers : Delivers n f i j k "transport" false) {operator : String}
    (instantiates : n.Instantiates (carrying f j "transport" false)
      (transportMethod name operator source).1 f supply next) (valid : next.Valid) :
    ∃ l, Delivers next f i l k operator true := by
  -- the other two stages stay, as they are told from the transport by their names
  have apart {u : Task} (listed : u ∈ n.taskList) (other : u.name ≠ "transport") : u.id ≠ j := by
    intro same
    have member := delivers.mem_taskList.mpr (.inr (.inl rfl))
    exact other (congrArg Task.name (delivers.eq_of_id listed member same))
  have picked : i ≠ j := apart (delivers.mem_taskList.mpr (.inl rfl)) (show "pick" ≠ _ by decide)
  have placed : k ≠ j :=
    apart (delivers.mem_taskList.mpr (.inr (.inr rfl))) (show "place" ≠ _ by decide)
  let m := (transportMethod name operator source).1
  let l := m.template.issued (supply.copied m) ⟨source.task⟩
  have fresh : l ∈ m.template.issuedIds (supply.copied m) := by
    refine Network.mem_issuedIds.mpr ⟨⟨source.task⟩, ?_, rfl⟩
    exact (Network.valid_single _).contains_of_mem (Network.mem_taskList_single.mpr rfl)
  refine ⟨l, valid, fun u => ?_, ?_, ?_, instantiates.varList_eq_nil delivers.ground⟩
  · rw [instantiates.tasks, delivers.mem_taskList]
    simp only [template_transport, Network.mem_taskList_single, stages, List.mem_cons, List.not_mem_nil,
      or_false, exists_eq_left]
    constructor
    · rintro (⟨rfl | rfl | rfl, other⟩ | rfl)
      · exact .inl rfl
      · exact absurd rfl other
      · exact .inr (.inr rfl)
      · exact .inr (.inl rfl)
    · rintro (rfl | rfl | rfl)
      · exact .inl ⟨.inl rfl, picked⟩
      · exact .inr rfl
      · exact .inl ⟨.inr (.inr rfl), placed⟩
  · have chain := delivers.chain
    simp only [stages, List.isChain_cons_cons, List.isChain_singleton, and_true,
      instantiates.orders] at chain ⊢
    exact ⟨.inl ⟨i, j, chain.1, .of_ne picked, .inr ⟨rfl, fresh⟩⟩,
      .inl ⟨j, k, chain.2, .inr ⟨rfl, fresh⟩, .of_ne placed⟩⟩
  · intro d held
    rcases (instantiates.constraints d).mp held with ⟨c, old, fans⟩ | ⟨c, own, -⟩
    · rw [fans.condition, delivers.unconditional c old]
    · exact absurd own Network.not_mem_constraints_single

/-! ## Verdicts -/

def carry (s : State) (f : String → Constant) (o : Operator) : Except SearchFailure Plan :=
  if s.ask (o.precondition.subst (Variable.given f)) = true then
    .ok ⟨[pick.action [f "p", f "from"], o.given f, place.action [f "p", f "to"]]⟩
  else
    .error (.preconditionFailed (o.given f) (o.precondition.subst (Variable.given f)))

theorem ask_picked (vehicle : o ∈ vehicles) :
    (s.tell (.add (holding (f "p")))).ask (o.precondition.subst (Variable.given f)) =
      s.ask (o.precondition.subst (Variable.given f)) := by
  have unasked : ∀ e ∈ [Effect.add (holding (f "p"))],
      e.atom ∉ (o.precondition.subst (Variable.given f)).atoms := by
    refine List.forall_mem_singleton.mpr fun asked => ?_
    -- the predicates are enough, so that a parcel may be called like a place
    have names := List.mem_map_of_mem (f := Atom.predicate) asked
    rcases List.mem_pair.mp vehicle with rfl | rfl
    · exact absurd names (show "held" ∉ ["at", "road"] by decide)
    · exact absurd names (show "held" ∉ ["at", "airport", "airport"] by decide)
  exact State.ask_applyEffects unasked

theorem performs_carried : (domain first).1.Performs
    (((s.tell (.add (holding (f "p")))).tell (.delete (located (f "p") (f "from")))).tell
      (.add (located (f "p") (f "to")))) (placing f id) (place.action [f "p", f "to"]) := by
  refine performs_place.mpr ⟨?_, ?_⟩ <;>
    simp [State.contains_tell, Effect.atom, holding, located, Atom.isGround, Term.isGround]

theorem linearize_delivers (vehicle : o ∈ vehicles) (delivers : Delivers n f i j k o.name true)
    {setting : Setting} (indexed : setting.index = .ofDomain (domain first).1)
    (sorts : setting.sorter = TaskOrder.topological) (config : setting.config = config)
    (there : setting.state.contains (located (f "p") (f "from")) = true) :
    setting.linearize n = carry setting.state f o := by
  have valid := delivers.toValid
  have picks : (domain first).1.Performs setting.state (picking f i) (pick.action [f "p", f "from"]) :=
    performs_pick.mpr there
  have next (s : State) (a : Action) : (domain first).1.next setting.config.stateProgression s a =
      (domain first).1.after s a := by
    rw [config]
    rfl
  unfold carry
  split
  next fit =>
    refine Setting.linearize_of_does indexed sorts valid delivers.tasks delivers.chain
      (.next picks (.next ?_ (.next ?_ .nothing))) fun _ c held => ?_
    · rw [next, after_pick]
      exact (performs_vehicle vehicle).mpr ((ask_picked vehicle).trans fit)
    · rw [next, next, after_pick, after_vehicle vehicle]
      exact performs_carried
    · refine Constraint.holdsAlong_of_always fun condition requires => ?_
      rw [delivers.unconditional c held] at requires
      cases requires
  next unfit =>
    refine Setting.linearize_of_stops indexed sorts valid delivers.tasks delivers.chain [_] rfl
      (.next picks .nothing) (stops_vehicle vehicle ?_)
    rw [next, after_pick, ask_picked vehicle]
    exact Bool.eq_false_iff.mpr unfit

/-! ## The search -/

def roles (parcel destination : String) (role : String) : Constant :=
  if role = "p" then ⟨parcel⟩ else if role = "from" then ⟨"depot"⟩ else ⟨destination⟩

def goal (parcel destination : String) (second : Supply) : Task :=
  ⟨⟨second.task⟩, "deliver", [.const ⟨parcel⟩, .const ⟨"depot"⟩, .const ⟨destination⟩], false⟩

def setting (parcel destination : String) (first second : Supply) : Setting :=
  (problem parcel destination second).1.setting (domain first).1 config TaskOrder.topological

def transport (s : State) (f : String → Constant) : Except SearchFailure Plan :=
  (SearchFailure.methodsExhausted
    ⟨"transport", [.const (f "p"), .const (f "from"), .const (f "to")]⟩).inTurn
      [carry s f drive, carry s f fly]

section Search

theorem goal_alive : (setting parcel destination first second).isDeadEnd
    (goal parcel destination second) = false :=
  Setting.not_isDeadEnd_of_method (d := (domain first).1) rfl rfl List.mem_cons_self rfl

theorem alive_delivers {primitive : Bool} (delivers : Delivers n f i j k name primitive)
    (alive : (setting parcel destination first second).isDeadEnd
      (carrying f j name primitive) = false) :
    ∀ u ∈ n.taskList, (setting parcel destination first second).isDeadEnd u = false := by
  intro u listed
  rcases delivers.mem_taskList.mp listed with rfl | rfl | rfl
  · exact Setting.not_isDeadEnd_of_operator (d := (domain first).1) (o := pick) rfl rfl rfl rfl
  · exact alive
  · exact Setting.not_isDeadEnd_of_operator (d := (domain first).1) (o := place) rfl rfl rfl rfl

variable (there : (setting parcel destination first second).state.contains
  (located (f "p") (f "from")) = true)
include there

theorem concludesBy_vehicle (vehicle : o ∈ vehicles)
    (delivers : Delivers n f i j k "transport" false) :
    (setting parcel destination first second).ConcludesBy (calls + 1) n (carrying f j "transport" false)
      (transportMethod name o.name source).1
      (carry (setting parcel destination first second).state f o) := by
  have fits : (transportMethod name o.name source).1.Fits (carrying f j "transport" false) f :=
    ⟨rfl, rfl, closed_transport⟩
  refine fits.concludesBy (Network.valid_single _) delivers.ground
    (delivers.mem_taskList.mpr (.inr (.inl rfl))) fun supply next instantiates valid => ?_
  obtain ⟨l, delivers⟩ := delivers_transport delivers instantiates valid
  have verdict : (setting parcel destination first second).linearize next = carry _ f o :=
    linearize_delivers vehicle delivers rfl rfl rfl there
  have alive : (setting parcel destination first second).isDeadEnd
      (carrying f l o.name true) = false := by
    refine Setting.not_isDeadEnd_of_operator (d := (domain first).1) (o := o) rfl rfl
      (operator?_vehicle vehicle) ?_
    rcases List.mem_pair.mp vehicle with rfl | rfl <;> rfl
  rw [← verdict]
  refine Setting.concludes_primitive ⟨rfl, rfl⟩ (alive_delivers delivers alive) ?_
  refine List.all_eq_true.mpr fun u listed => ?_
  rcases delivers.mem_taskList.mp listed with rfl | rfl | rfl <;> rfl

theorem concludes_delivers (delivers : Delivers n f i j k "transport" false) :
    (setting parcel destination first second).Concludes (calls + 2) n
      (transport (setting parcel destination first second).state f) := by
  have candidates : (setting parcel destination first second).index.methodsFor
      (carrying f j "transport" false) = (domain first).1.methodsFor "transport" :=
    DomainIndex.methodsFor_ofDomain ..
  have alive : (setting parcel destination first second).isDeadEnd
      (carrying f j "transport" false) = false :=
    Setting.not_isDeadEnd_of_method (d := (domain first).1) rfl rfl List.mem_cons_self rfl
  have first : n.firstCompound = .ok (carrying f j "transport" false) := by
    refine delivers.firstCompound_eq_ok.mpr ⟨delivers.mem_taskList.mpr (.inr (.inl rfl)), rfl, ?_⟩
    intro u listed compound
    rcases delivers.mem_taskList.mp listed with rfl | rfl | rfl
    · cases compound
    · exact Nat.le_refl _
    · cases compound
  refine Setting.concludes_inTurn ⟨rfl, rfl⟩ (alive_delivers delivers alive) first ?_
  rw [candidates]
  have road : drive ∈ vehicles := List.mem_pair.mpr (.inl rfl)
  have air : fly ∈ vehicles := List.mem_pair.mpr (.inr rfl)
  exact .cons (concludesBy_vehicle (o := drive) there road delivers)
    (.cons (concludesBy_vehicle (o := fly) there air delivers) .nil)

end Search

/-! ## The problem -/

def airport (x : Constant) : Atom :=
  ⟨"airport", [.const x]⟩

def road (x y : Constant) : Atom :=
  ⟨"road", [.const x, .const y]⟩

def facts (parcel : Constant) : List Atom :=
  [located parcel ⟨"depot"⟩, airport ⟨"depot"⟩, airport ⟨"harbor"⟩, road ⟨"depot"⟩ ⟨"market"⟩]

def delivery (parcel destination : Constant) : Except SearchFailure Plan :=
  let carried (vehicle : Operator) := vehicle.action [parcel, ⟨"depot"⟩, destination]
  let steps (vehicle : Operator) : List Action :=
    [pick.action [parcel, ⟨"depot"⟩], carried vehicle, place.action [parcel, destination]]
  if destination = ⟨"market"⟩ then
    .ok ⟨steps drive⟩
  else if destination ∈ [⟨"depot"⟩, ⟨"harbor"⟩] then
    .ok ⟨steps fly⟩
  else
    .error (.preconditionFailed (carried fly) (.and [.atom (located parcel ⟨"depot"⟩),
      .and [.atom (airport ⟨"depot"⟩), .atom (airport destination)]]))

/-- What a delivery should come to: it is possible to the market, to the harbor and to the depot itself,
and only the market is reached by road. -/
structure Delivered (parcel destination : Constant) (result : Except SearchFailure Plan) : Prop where
  solvable : (∃ plan, result = .ok plan) ↔ destination ∈ [⟨"market"⟩, ⟨"harbor"⟩, ⟨"depot"⟩]
  byRoad : destination = ⟨"market"⟩ → result = .ok
    ⟨[pick.action [parcel, ⟨"depot"⟩], drive.action [parcel, ⟨"depot"⟩, ⟨"market"⟩],
      place.action [parcel, destination]]⟩
  byAir : destination ∈ [⟨"harbor"⟩, ⟨"depot"⟩] → result = .ok
    ⟨[pick.action [parcel, ⟨"depot"⟩], fly.action [parcel, ⟨"depot"⟩, destination],
      place.action [parcel, destination]]⟩

theorem delivered_delivery (parcel destination : Constant) :
    Delivered parcel destination (delivery parcel destination) := by
  unfold delivery
  by_cases market : destination = ⟨"market"⟩
  · subst market
    exact ⟨by simp, fun _ => rfl, fun other => absurd other (by decide)⟩
  · by_cases flown : destination ∈ [⟨"depot"⟩, ⟨"harbor"⟩]
    · rcases List.mem_pair.mp flown with rfl | rfl <;>
        exact ⟨by simp, fun road => absurd road market, fun _ => rfl⟩
    · rw [if_neg market, if_neg flown]
      simp only [List.mem_cons, List.not_mem_nil, or_false] at flown
      constructor <;> simp_all

theorem ask_drive : (State.ofList (facts x)).ask
    (.and [.atom (located x ⟨"depot"⟩), .atom (road ⟨"depot"⟩ y)]) = true ↔ y = ⟨"market"⟩ := by
  simp [State.ask, State.askAll, State.contains_ofList, facts, located, airport, road, Atom.isGround,
    Term.isGround]

theorem ask_fly : (State.ofList (facts x)).ask
    (.and [.atom (located x ⟨"depot"⟩), .and [.atom (airport ⟨"depot"⟩), .atom (airport y)]]) = true ↔
      y ∈ [⟨"depot"⟩, ⟨"harbor"⟩] := by
  simp [State.ask, State.askAll, State.contains_ofList, facts, located, airport, road, Atom.isGround,
    Term.isGround]

theorem transport_facts : transport (.ofList (facts ⟨parcel⟩)) (roles parcel destination) =
    delivery ⟨parcel⟩ ⟨destination⟩ := by
  have drives : (State.ofList (facts ⟨parcel⟩)).ask
      (drive.precondition.subst (Variable.given (roles parcel destination))) = true ↔
        (⟨destination⟩ : Constant) = ⟨"market"⟩ := ask_drive
  have flies : (State.ofList (facts ⟨parcel⟩)).ask
      (fly.precondition.subst (Variable.given (roles parcel destination))) = true ↔
        (⟨destination⟩ : Constant) ∈ [⟨"depot"⟩, ⟨"harbor"⟩] := ask_fly
  unfold transport carry delivery
  simp only [drives, flies]
  split_ifs <;> rfl

theorem state_setting (constant : Term.ofSymbol parcel = .const ⟨parcel⟩) :
    (setting parcel destination first second).state = .ofList (facts ⟨parcel⟩) := by
  have fact : Atom.ofSymbols "at" [parcel, "depot"] = located ⟨parcel⟩ ⟨"depot"⟩ := by
    rw [Atom.ofSymbols, List.map_cons, constant]
    rfl
  exact congrArg (fun fact => State.ofList (fact :: (facts ⟨parcel⟩).tail)) fact

theorem network_problem (constants : ∀ symbol ∈ [parcel, destination],
    Term.ofSymbol symbol = .const ⟨symbol⟩) :
    (problem parcel destination second).1.network = .single (goal parcel destination second) := by
  have args : [parcel, "depot", destination].map Term.ofSymbol =
      (goal parcel destination second).args := by
    simp only [List.map_cons, List.map_nil, constants parcel (by simp),
      constants destination (by simp), goal]
    rfl
  exact congrArg (fun args => Network.single ⟨⟨second.task⟩, "deliver", args, false⟩) args

theorem problem_ends (constants : ∀ symbol ∈ [parcel, destination],
      Term.ofSymbol symbol = .const ⟨symbol⟩)
    (le : (problem parcel destination second).2 ≤ supply) : ∃ report,
      (problem parcel destination second).1.Ends (domain first).1 config supply report ∧
        report.result = delivery ⟨parcel⟩ ⟨destination⟩ := by
  have state : (setting parcel destination first second).state = .ofList (facts ⟨parcel⟩) :=
    state_setting (constants parcel List.mem_cons_self)
  have there : (setting parcel destination first second).state.contains
      (located ⟨parcel⟩ ⟨"depot"⟩) = true := by
    rw [state, State.contains_ofList]
    exact ⟨List.mem_cons_self, rfl⟩
  have delivers (source : Supply) :
      (setting parcel destination first second).ConcludesBy 2 (.single (goal parcel destination second))
        (goal parcel destination second) (deliverMethod source).1
        (delivery ⟨parcel⟩ ⟨destination⟩) := by
    have fits : (deliverMethod source).1.Fits (goal parcel destination second)
        (roles parcel destination) := ⟨rfl, rfl, closed_deliver⟩
    refine fits.concludesBy valid_deliver (Network.varList_single rfl)
      (Network.mem_taskList_single.mpr rfl) fun supply next instantiates valid => ?_
    obtain ⟨i, j, k, delivers⟩ := delivers_deliver
      (fun u listed => congrArg Task.id (Network.mem_taskList_single.mp listed))
      (fun _ => Network.not_mem_constraints_single) (Network.varList_single rfl) valid instantiates
    rw [← transport_facts, ← state]
    exact concludes_delivers there delivers
  obtain ⟨report, ends, gives⟩ := Problem.ends_of_single (network_problem constants) rfl rfl le.1
    ⟨rfl, rfl⟩ goal_alive (.cons (delivers first) .nil)
  exact ⟨report, ends, gives.trans (SearchFailure.inTurn_singleton ..)⟩

end HtnPlanning.Logistics
