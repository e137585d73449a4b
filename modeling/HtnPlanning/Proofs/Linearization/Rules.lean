import HtnPlanning.Proofs.Linearization.Decision
import HtnPlanning.Proofs.Linearization.Grounding

namespace HtnPlanning

def Variable.given (f : String → Constant) (v : Variable) : Term :=
  .const (f v.name)

def Atom.given (f : String → Constant) (a : Atom) : Atom :=
  { a with args := a.args.map (·.subst (Variable.given f)) }

def Effect.given (f : String → Constant) : Effect → Effect
  | .add a => .add (a.given f)
  | .delete a => .delete (a.given f)

namespace Operator

def given (f : String → Constant) (o : Operator) : Action :=
  o.action (o.parameters.map fun v => f v.name)

structure Closed (o : Operator) : Prop where
  precondition : ∀ v ∈ o.precondition.varList, v ∈ o.parameters
  effects : ∀ e ∈ o.effects, ∀ v ∈ e.atom.varList, v ∈ o.parameters

variable {o : Operator} {f : String → Constant}

theorem image_given {v : Variable} (parameter : v ∈ o.parameters) :
    (o.given f).substitution.image v = v.given f := by
  obtain ⟨i, place⟩ := List.mem_iff_getElem?.mp parameter
  refine Substitution.image_of_bound (get?_substitution_of_unique (fun i j same => ?_) place ?_)
  · rw [List.getElem?_map, List.getElem?_map, same]
  · rw [List.getElem?_map, place, Option.map_some]

theorem ground_given (closed : o.Closed) :
    (o.given f).ground o.precondition = o.precondition.subst (Variable.given f) := by
  rw [Action.ground, Condition.apply_eq_subst]
  exact Condition.subst_congr fun v inCondition => image_given (closed.precondition v inCondition)

theorem groundEffects_given (closed : o.Closed) :
    (o.given f).groundEffects o = o.effects.map (Effect.given f) := by
  refine List.map_congr_left fun e listed => ?_
  have atom : e.atom.apply (o.given f).substitution = e.atom.given f := by
    rw [Atom.apply, Atom.given]
    refine congrArg (Atom.mk _) (List.map_congr_left fun x arg => ?_)
    rw [Term.apply_eq_subst]
    exact Term.subst_congr fun v is =>
      image_given (closed.effects e listed v (Term.mem_vars.mpr (is ▸ arg)))
  cases e with
  | add a => exact congrArg Effect.add atom
  | delete a => exact congrArg Effect.delete atom

end Operator

namespace Domain

variable {d : Domain} {o : Operator} {t : Task} {f : String → Constant} {s : State}

theorem action_given (operator : d.operator? t.name = some o)
    (args : t.args = o.parameters.map (Variable.given f)) :
    (DomainIndex.ofDomain d).action t = .ok (o.given f, o) :=
  DomainIndex.action_eq_ok.mpr ⟨operator, by simp [Task.arity, args, Operator.arity],
    _, by simp [args, Variable.given], rfl⟩

theorem performs_given (operator : d.operator? t.name = some o) (closed : o.Closed)
    (args : t.args = o.parameters.map (Variable.given f)) :
    d.Performs s t (o.given f) ↔ s.ask (o.precondition.subst (Variable.given f)) = true := by
  rw [performs_iff_ask (action_given operator args), Operator.ground_given closed]

theorem stops_given (operator : d.operator? t.name = some o) (closed : o.Closed)
    (args : t.args = o.parameters.map (Variable.given f))
    (fails : s.ask (o.precondition.subst (Variable.given f)) = false) :
    d.Stops s t (.preconditionFailed (o.given f) (o.precondition.subst (Variable.given f))) := by
  rw [← Operator.ground_given closed] at fails ⊢
  exact stops_iff.mpr (.inr ⟨_, o, action_given operator args, fails, rfl⟩)

theorem after_given (operator : d.operator? o.name = some o) (closed : o.Closed) :
    d.after s (o.given f) = s.applyEffects (o.effects.map (Effect.given f)) := by
  have same : d.operator? (o.given f).operator = some o := operator
  rw [after, same, ← Operator.groundEffects_given closed]

end Domain

end HtnPlanning
