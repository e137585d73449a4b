import HtnPlanning.Proofs.Linearization.Chain
import HtnPlanning.Proofs.Search.Goal
import HtnPlanning.Proofs.Samples.Templates

namespace HtnPlanning.Juggling

variable {first second supply source : Supply} {held give take name dropped picked : String}
  {a b : Constant} {n next : Network} {t u : Task} {c : Constraint}
  {f : String → Constant} {calls : Nat}

def having (x : Constant) : Atom :=
  ⟨"have", [.const x]⟩

def exchange (held dropped picked : Constant) : Except SearchFailure Plan :=
  if dropped ≠ held then
    .error (.preconditionFailed (drop.action [dropped]) (.atom (having dropped)))
  else if picked = held then
    .error (.preconditionFailed (pickup.action [picked]) (.not (.atom (having picked))))
  else
    .ok ⟨[drop.action [dropped], pickup.action [picked]]⟩

def swap (held give take : Constant) : Except SearchFailure Plan :=
  (SearchFailure.methodsExhausted ⟨"swap", [.const give, .const take]⟩).inTurn
    [exchange held give take, exchange held take give]

/-- What a swap should come to: it is possible when exactly one of the objects is held, which is then
dropped before the other one is picked up. -/
structure Swapped (held give take : Constant) (result : Except SearchFailure Plan) : Prop where
  solvable : (∃ plan, result = .ok plan) ↔ Xor (give = held) (take = held)
  plan : ∀ other ≠ held, give = held ∧ take = other ∨ give = other ∧ take = held →
    result = .ok ⟨[drop.action [held], pickup.action [other]]⟩
  cause : ¬ Xor (give = held) (take = held) →
    ∃ action condition, result = .error (.preconditionFailed action condition)

theorem swapped_swap (held give take : Constant) : Swapped held give take (swap held give take) := by
  -- four cases, by which of the two objects are held
  by_cases gives : give = held <;> by_cases takes : take = held <;>
    constructor <;> simp_all [swap, exchange, SearchFailure.inTurn, Xor, eq_comm]

section Operators

variable {s : State} {id : TaskId} {x : Constant}

theorem drop_closed : drop.Closed :=
  ⟨by decide, by decide⟩

theorem pickup_closed : pickup.Closed :=
  ⟨by decide, by decide⟩

theorem performs_drop : (domain first).1.Performs s ⟨id, "drop", [.const x], true⟩ (drop.action [x]) ↔
    s.contains (having x) = true :=
  Domain.performs_given (o := drop) (f := fun _ => x) rfl drop_closed rfl

theorem performs_pickup :
    (domain first).1.Performs s ⟨id, "pickup", [.const x], true⟩ (pickup.action [x]) ↔
      s.contains (having x) = false :=
  (Domain.performs_given (o := pickup) (f := fun _ => x) rfl pickup_closed rfl).trans
    (iff_of_eq (Bool.not_eq_true' _))

theorem stops_drop (fails : s.contains (having x) = false) :
    (domain first).1.Stops s ⟨id, "drop", [.const x], true⟩
      (.preconditionFailed (drop.action [x]) (.atom (having x))) :=
  Domain.stops_given (o := drop) (f := fun _ => x) rfl drop_closed rfl fails

theorem stops_pickup (fails : s.contains (having x) = true) :
    (domain first).1.Stops s ⟨id, "pickup", [.const x], true⟩
      (.preconditionFailed (pickup.action [x]) (.not (.atom (having x)))) :=
  Domain.stops_given (o := pickup) (f := fun _ => x) rfl pickup_closed rfl
    ((Bool.not_eq_false' _).mpr fails)

end Operators

theorem contains_having (constant : Term.ofSymbol held = .const ⟨held⟩) :
    (State.ofList [.ofSymbols "have" [held]]).contains (having a) = true ↔ a = ⟨held⟩ := by
  have fact : Atom.ofSymbols "have" [held] = having ⟨held⟩ := by
    rw [Atom.ofSymbols, List.map_singleton, constant, having]
  rw [State.contains_ofList, fact]
  simp [having, Atom.isGround, Term.isGround]

section Directions

variable {x y : Variable} (drops : Term.ofSymbol dropped = .var x)
  (picks : Term.ofSymbol picked = .var y)
include drops picks

theorem closed_swapMethod (known : [x, y] ⊆ [⟨"x", 0⟩, ⟨"y", 0⟩]) :
    (swapMethod name dropped picked source).1.Closed := by
  refine fun v inTemplate => known ?_
  rcases Network.mem_varList.mp inTemplate with ⟨t, listed, inTask⟩ | ⟨c, held, inCondition⟩
  · rcases mem_template.mp listed with rfl | rfl <;> simp_all [Task.mem_varList]
  · rcases mem_constraints.mp held with rfl | rfl | rfl <;>
      simp_all [Constraint.varList, Constraint.condition?, Condition.mem_varList, Condition.holds,
        Condition.lacks, Condition.atoms, Atom.ofSymbols]

theorem tasks_swapped (only : ∀ u ∈ n.taskList, u.id = t.id)
    (instantiates : n.Instantiates t (swapMethod name dropped picked source).1 f supply next) :
    ∃ p q, (∀ u, u ∈ next.taskList ↔
        u ∈ [⟨p, "drop", [x.given f], true⟩, ⟨q, "pickup", [y.given f], true⟩]) ∧
      Orders next.held p q := by
  refine ⟨_, _, fun u => ?_,
    instantiates.orders.mpr (.inr ⟨⟨source.task⟩, ⟨source.task + 1⟩, ?_, rfl, rfl⟩)⟩
  · rw [instantiates.mem_taskList_of_only only fun v => mem_template.trans List.mem_pair.symm]
    simp only [List.map_cons, List.map_nil, Task.subst, drops, picks, Term.subst]
  · exact .of_precedence (mem_constraints.mpr (.inl rfl))

theorem conditions_swapped (free : ∀ c, c ∉ n.constraints)
    (instantiates : n.Instantiates t (swapMethod name dropped picked source).1 f supply next) :
    ∀ c ∈ next.constraints, ∀ condition, c.condition? = some condition →
      condition = .atom (having (f x.name)) ∨ condition = .not (.atom (having (f y.name))) := by
  intro d held condition requires
  rcases (instantiates.constraints d).mp held with ⟨c, old, -⟩ | ⟨c, own, rfl⟩
  · exact absurd old (free c)
  · rw [Constraint.condition?_rename] at requires
    rcases mem_constraints.mp own with rfl | rfl | rfl
    · cases requires
    · refine .inl (Option.some.inj (requires.symm.trans ?_))
      simp [Constraint.subst, Constraint.condition?, Condition.holds, Condition.subst, Atom.ofSymbols,
        drops, Term.subst, Variable.given, having]
    · refine .inr (Option.some.inj (requires.symm.trans ?_))
      simp [Constraint.subst, Constraint.condition?, Condition.lacks, Condition.holds, Condition.subst,
        Atom.ofSymbols, picks, Term.subst, Variable.given, having]

end Directions

def setting (held give take : String) (first second : Supply) : Setting :=
  (problem held give take second).1.setting (domain first).1 {} TaskOrder.topological

theorem linearize_exchange (constant : Term.ofSymbol held = .const ⟨held⟩) {p q : TaskId}
    (valid : n.Valid) (tasks : ∀ u, u ∈ n.taskList ↔
      u ∈ [⟨p, "drop", [.const a], true⟩, ⟨q, "pickup", [.const b], true⟩])
    (orders : Orders n.held p q)
    (conditions : ∀ c ∈ n.constraints, ∀ condition, c.condition? = some condition →
      condition = .atom (having a) ∨ condition = .not (.atom (having b))) :
    (setting held give take first second).linearize n = exchange ⟨held⟩ a b := by
  let s := (setting held give take first second).state
  have chain : [(⟨p, "drop", [.const a], true⟩ : Task), ⟨q, "pickup", [.const b], true⟩].IsChain
      fun t u => Orders n.held t.id u.id := by simpa using orders
  have has (x : Constant) : s.contains (having x) = true ↔ x = ⟨held⟩ := contains_having constant
  have lacks {x : Constant} (other : x ≠ ⟨held⟩) : s.contains (having x) = false :=
    Bool.eq_false_iff.mpr (mt (has x).mp other)
  have drops (same : a = ⟨held⟩) :
      (domain first).1.Performs s ⟨p, "drop", [.const a], true⟩ (drop.action [a]) :=
    performs_drop.mpr ((has a).mpr same)
  unfold exchange
  split
  next other =>
    exact Setting.linearize_of_stops rfl rfl valid tasks chain [] rfl .nothing
      (stops_drop (lacks other))
  next same =>
    rw [not_not] at same
    split
    next again =>
      exact Setting.linearize_of_stops rfl rfl valid tasks chain [_] rfl
        (.next (drops same) .nothing) (stops_pickup ((has b).mpr again))
    next other =>
      refine Setting.linearize_of_does rfl rfl valid tasks chain
        (.next (drops same) (.next (performs_pickup.mpr (lacks other)) .nothing)) fun _ c held => ?_
      refine Constraint.holdsAlong_of_always fun condition requires i => ?_
      rcases conditions c held condition requires with rfl | rfl
      · exact (has a).mpr same
      · exact (Bool.not_eq_true' _).mpr (lacks other)

theorem alive_template :
    ∀ u ∈ (swapMethod name dropped picked source).1.template.taskList,
      (setting held give take first second).isDeadEnd u = false := by
  intro u listed
  rcases mem_template.mp listed with rfl | rfl
  · exact Setting.not_isDeadEnd_of_operator (d := (domain first).1) (o := drop) rfl rfl rfl rfl
  · exact Setting.not_isDeadEnd_of_operator (d := (domain first).1) (o := pickup) rfl rfl rfl rfl

def goal (f : String → Constant) (second : Supply) : Task :=
  ⟨⟨second.task⟩, "swap", [.const (f "x"), .const (f "y")], false⟩

theorem goal_alive : (setting held give take first second).isDeadEnd (goal f second) = false :=
  Setting.not_isDeadEnd_of_method (d := (domain first).1) rfl rfl List.mem_cons_self rfl

theorem network_problem (gives : Term.ofSymbol give = .const (f "x"))
    (takes : Term.ofSymbol take = .const (f "y")) :
    (problem held give take second).1.network = .single (goal f second) := by
  have args : [give, take].map Term.ofSymbol = (goal f second).args := by
    simp only [List.map_cons, List.map_nil, gives, takes, goal]
  exact congrArg (fun args => Network.single ⟨⟨second.task⟩, "swap", args, false⟩) args

theorem concludesBy_swapMethod (constant : Term.ofSymbol held = .const ⟨held⟩) {x y : Variable}
    (drops : Term.ofSymbol dropped = .var x) (picks : Term.ofSymbol picked = .var y)
    (known : [x, y] ⊆ [⟨"x", 0⟩, ⟨"y", 0⟩]) :
    (setting held give take first second).ConcludesBy (calls + 1) (.single (goal f second))
      (goal f second) (swapMethod name dropped picked source).1
      (exchange ⟨held⟩ (f x.name) (f y.name)) := by
  have fits : (swapMethod name dropped picked source).1.Fits (goal f second) f :=
    ⟨rfl, rfl, closed_swapMethod drops picks known⟩
  refine fits.concludesBy valid_template (Network.varList_single rfl)
    (Network.mem_taskList_single.mpr rfl) fun supply next instantiates valid => ?_
  obtain ⟨p, q, tasks, orders⟩ := tasks_swapped drops picks
    (fun u listed => congrArg Task.id (Network.mem_taskList_single.mp listed)) instantiates
  have verdict : (setting held give take first second).linearize next =
      exchange ⟨held⟩ (f x.name) (f y.name) :=
    linearize_exchange constant valid tasks orders
      (conditions_swapped drops picks (fun _ => Network.not_mem_constraints_single) instantiates)
  rw [← verdict]
  refine Setting.concludes_primitive ⟨rfl, rfl⟩
    (instantiates.alive (fun u listed => ?_) alive_template) ?_
  · exact Network.mem_taskList_single.mp listed ▸ goal_alive
  · refine List.all_eq_true.mpr fun u listed => ?_
    rcases List.mem_pair.mp ((tasks u).mp listed) with rfl | rfl <;> rfl

theorem problem_ends (constants : ∀ symbol ∈ [held, give, take], Term.ofSymbol symbol = .const ⟨symbol⟩)
    (le : (problem held give take second).2 ≤ supply) : ∃ report,
      (problem held give take second).1.Ends (domain first).1 {} supply report ∧
        report.result = swap ⟨held⟩ ⟨give⟩ ⟨take⟩ := by
  simp only [List.forall_mem_cons, List.not_mem_nil, false_imp_iff, implies_true, and_true] at constants
  obtain ⟨constant, gives, takes⟩ := constants
  let f (parameter : String) : Constant := if parameter = "x" then ⟨give⟩ else ⟨take⟩
  have gives : Term.ofSymbol give = .const (f "x") := gives
  have takes : Term.ofSymbol take = .const (f "y") := takes
  have direct (name : String) (source : Supply) :
      (setting held give take first second).ConcludesBy 1 (.single (goal f second)) (goal f second)
        (swapMethod name "?x" "?y" source).1 (exchange ⟨held⟩ ⟨give⟩ ⟨take⟩) :=
    concludesBy_swapMethod constant (rfl : Term.ofSymbol "?x" = .var ⟨"x", 0⟩)
      (rfl : Term.ofSymbol "?y" = .var ⟨"y", 0⟩) (by decide)
  have symmetric (name : String) (source : Supply) :
      (setting held give take first second).ConcludesBy 1 (.single (goal f second)) (goal f second)
        (swapMethod name "?y" "?x" source).1 (exchange ⟨held⟩ ⟨take⟩ ⟨give⟩) :=
    concludesBy_swapMethod constant (rfl : Term.ofSymbol "?y" = .var ⟨"y", 0⟩)
      (rfl : Term.ofSymbol "?x" = .var ⟨"x", 0⟩) (by decide)
  exact Problem.ends_of_single (network_problem gives takes) rfl rfl le.1 ⟨rfl, rfl⟩ goal_alive
    (.cons (direct _ _) (.cons (symmetric _ _) .nil))

end HtnPlanning.Juggling
