import HtnPlanning.Proofs.Search.Choice
import HtnPlanning.Proofs.Search.Stack

namespace HtnPlanning

def Progress.supply : Progress → Supply
  | .running search => search.supply
  | .finished report => report.supply

variable [Counters] {n : Network} {s : Substitution} {t : Task} {m : Method} {supply : Supply}
  {setting : Setting}

namespace Network

end Network

namespace Search

omit [Counters] in
theorem supply_arrive (root : Task) (stack : List Frame) (n : Network) (depth : Nat) (stats : Stats)
    (supply : Supply) : (arrive setting root stack n depth stats supply).supply = supply := by
  simp only [arrive]
  cases setting.examine n depth (stats.examined depth) with
  | failed failure => cases stack <;> rfl
  | solved _ | stopped _ | opened _ => rfl

omit [Counters] in
theorem supply_pop (search : Search) (top : Frame) (below : List Frame) :
    (search.pop top below).supply = search.supply := by
  cases below <;> rfl

theorem le_step (search : Search) : search.supply ≤ (search.step setting).supply := by
  cases search.turn with
  | ended empty steps =>
      rw [steps]
      exact search.supply.le_refl
  | gaveUp top below stack spent steps =>
      rw [steps, supply_pop]
      exact search.supply.le_refl
  | skipped top below m rest supply stack candidates rejected steps =>
      rw [steps]
      exact Network.le_of_tryMethod rejected
  | entered top below m rest n supply stack candidates accepted steps =>
      rw [steps, supply_arrive]
      exact Network.le_of_tryMethod accepted

theorem le_advance (steps : Nat) (p : Progress) : p.supply ≤ (advance setting steps p).supply := by
  induction steps generalizing p with
  | zero => exact p.supply.le_refl
  | succ steps ih =>
      cases p with
      | finished report => exact report.supply.le_refl
      | running search => exact Supply.le_trans search.le_step (ih _)

end Search

end HtnPlanning
