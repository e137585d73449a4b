import HtnPlanning.Proofs.Search.Budget
import HtnPlanning.Proofs.Search.Lasting

namespace HtnPlanning

structure Visit where
  network : Network
  depth : Nat
deriving DecidableEq

namespace Search

def visit? (search : Search) : Option Visit :=
  match search.stack with
  | [] => none
  | top :: _ => do
    let m ← top.candidates.head?
    let n ← (top.network.tryMethod top.task m search.supply).1
    return ⟨n, top.depth + 1⟩

def visits (setting : Setting) : Nat → Progress → List Visit
  | 0, _ => []
  | _ + 1, .finished _ => []
  | steps + 1, .running search =>
    search.visit?.toList ++ visits setting steps (search.step setting)

end Search

def Setting.visits (setting : Setting) (n : Network) (supply : Supply) (steps : Nat) : List Visit :=
  ⟨n, 0⟩ :: Search.visits setting steps (setting.start n supply)

namespace Search

variable {setting : Setting}

theorem nodes_step (search : Search) : (search.step setting).stats.nodes =
    search.stats.nodes + search.visit?.toList.length := by
  cases search.turn with
  | ended empty steps =>
      rw [steps]
      simp [visit?, empty, Progress.stats]
  | gaveUp top below stack spent steps =>
      rw [steps]
      cases below <;> simp [visit?, stack, spent, pop, Progress.stats, Stats.backtracked]
  | skipped top below m rest supply stack candidates rejected steps =>
      rw [steps]
      simp [visit?, stack, candidates, rejected, Progress.stats, Stats.backtracked]
  | entered top below m rest n supply stack candidates accepted steps =>
      rw [steps, nodes_arrive]
      simp [visit?, stack, candidates, accepted, Stats.decomposed]

theorem nodes_advance (steps : Nat) (p : Progress) : (advance setting steps p).stats.nodes =
    p.stats.nodes + (visits setting steps p).length := by
  induction steps generalizing p with
  | zero => rfl
  | succ steps ih =>
      cases p with
      | finished report => rfl
      | running search =>
          rw [advance, ih, nodes_step, visits, List.length_append, Nat.add_assoc]
          rfl

theorem nodes_start (n : Network) (supply : Supply) : (setting.start n supply).stats.nodes = 1 := by
  obtain ⟨root, start⟩ := Setting.start_eq_arrive n supply
  rw [start, nodes_arrive]

theorem nodes_eq_length_visits (n : Network) (supply : Supply) (steps : Nat) :
    (advance setting steps (setting.start n supply)).stats.nodes =
      (setting.visits n supply steps).length := by
  rw [nodes_advance, nodes_start, Setting.visits, List.length_cons, Nat.add_comm]

end Search

/-! ## What is issued -/

def Attempt.after (a : Attempt) : Supply :=
  (a.network.tryMethod a.task a.method a.supply).2

namespace Search

variable {setting : Setting}

theorem supply_step (search : Search) :
    (search.step setting).supply = (search.attempt?.map Attempt.after).getD search.supply := by
  cases search.turn with
  | ended empty steps =>
      rw [steps]
      simp [attempt?, empty, Progress.supply]
  | gaveUp top below stack spent steps =>
      rw [steps]
      cases below <;> simp [attempt?, stack, spent, pop, Progress.supply]
  | skipped top below m rest supply stack candidates rejected steps =>
      rw [steps]
      simp [attempt?, stack, candidates, rejected, Progress.supply, Attempt.after]
  | entered top below m rest n supply stack candidates accepted steps =>
      rw [steps, supply_arrive]
      simp [attempt?, stack, candidates, accepted, Attempt.after]

theorem after_le_advance {steps : Nat} {p : Progress} :
    ∀ a ∈ attempts setting steps p, a.after ≤ (advance setting steps p).supply := by
  induction steps generalizing p with
  | zero => exact nofun
  | succ steps ih =>
      cases p with
      | finished report => exact nofun
      | running search =>
          intro a member
          rcases List.mem_append.mp member with made | later
          · have next : (search.step setting).supply = a.after := by
              rw [supply_step, Option.mem_toList.mp made]
              rfl
            rw [← next]
            exact le_advance steps (search.step setting)
          · exact ih a later

end Search

/-! ## What is passed on -/

/-- A property of the networks that a search comes to, which may be about their depth and about the
supply at that time. The methods that the search tries pass it on. -/
structure Setting.PassesOn (setting : Setting) (holds : Network → Nat → Supply → Prop) : Prop where
  mono : ∀ {n depth supply supply'}, holds n depth supply → supply ≤ supply' → holds n depth supply'
  child : ∀ {n depth supply t m next supply'}, holds n depth supply → n.firstCompound = .ok t →
    m ∈ setting.index.methodsFor t → (∀ limit, setting.config.maxDepth = some limit → depth < limit) →
    n.tryMethod t m supply = (some next, supply') → holds next (depth + 1) supply'

structure Setting.TurnsDown (setting : Setting) (holds : Network → Nat → Supply → Prop)
    (reason : SearchFailure → Prop) : Prop where
  exhausted : ∀ call, reason (.methodsExhausted call)
  examined : ∀ {n depth supply stats failure}, holds n depth supply →
    setting.examine n depth stats = .failed failure ∨ setting.examine n depth stats = .stopped failure →
    reason failure

theorem Setting.TurnsDown.any (setting : Setting) (holds : Network → Nat → Supply → Prop) :
    setting.TurnsDown holds fun _ => True :=
  ⟨fun _ => trivial, fun _ _ => trivial⟩

structure Frame.Known (frame : Frame) (setting : Setting) (holds : Network → Nat → Supply → Prop)
    (reason : SearchFailure → Prop) (supply : Supply) : Prop where
  holds : holds frame.network frame.depth supply
  first : frame.network.firstCompound = .ok frame.task
  candidates : ∀ m ∈ frame.candidates, m ∈ setting.index.methodsFor frame.task
  room : ∀ limit, setting.config.maxDepth = some limit → frame.depth < limit
  failure : ∀ failure, frame.failure = some failure → reason failure

def Progress.Known (setting : Setting) (holds : Network → Nat → Supply → Prop)
    (reason : SearchFailure → Prop) : Progress → Prop
  | .running search => ∀ frame ∈ search.stack, frame.Known setting holds reason search.supply
  | .finished report => ∀ failure, report.result = .error failure → reason failure

section

variable {setting : Setting} {holds : Network → Nat → Supply → Prop} {reason : SearchFailure → Prop}
  (passes : setting.PassesOn holds) (turnsDown : setting.TurnsDown holds reason)

include passes in
theorem Frame.Known.mono {frame : Frame} {supply supply' : Supply}
    (known : frame.Known setting holds reason supply) (le : supply ≤ supply') :
    frame.Known setting holds reason supply' :=
  { known with holds := passes.mono known.holds le }

namespace Search

include turnsDown

theorem known_arrive {root : Task} {stack : List Frame} {n : Network} {depth : Nat} {stats : Stats}
    {supply : Supply} (known : ∀ frame ∈ stack, frame.Known setting holds reason supply)
    (new : holds n depth supply) :
    (arrive setting root stack n depth stats supply).Known setting holds reason := by
  cases examination : setting.examine n depth (stats.examined depth) with
  | solved plan =>
      simp only [arrive, examination]
      rintro _ ⟨⟩
  | stopped failure =>
      simp only [arrive, examination]
      rintro _ ⟨⟩
      exact turnsDown.examined new (.inr examination)
  | failed failure =>
      have given := turnsDown.examined new (.inl examination)
      simp only [arrive, examination]
      cases stack with
      | nil =>
          rintro _ ⟨⟩
          exact given
      | cons parent rest =>
          rw [List.forall_mem_cons] at known
          refine List.forall_mem_cons.mpr ⟨?_, known.2⟩
          exact { known.1 with failure := fun _ same => Option.some.inj same ▸ given }
  | opened frame =>
      simp only [arrive, examination]
      refine List.forall_mem_cons.mpr ⟨?_, known⟩
      cases Setting.examine_eq_iff.mp examination with
      | opened _ _ first room =>
          exact ⟨new, first, fun _ member => member, room, fun _ none => by cases none⟩

include passes

theorem known_step {search : Search} (known : (Progress.running search).Known setting holds reason) :
    (search.step setting).Known setting holds reason := by
  cases search.turn with
  | ended empty steps =>
      rw [steps]
      rintro _ ⟨⟩
      exact turnsDown.exhausted _
  | gaveUp top below stack spent steps =>
      rw [steps]
      simp only [Progress.Known, stack, List.forall_mem_cons] at known
      have given : reason (top.failure.getD (.methodsExhausted top.task.call)) := by
        cases failure : top.failure with
        | none => exact turnsDown.exhausted _
        | some failure' => exact known.1.failure failure' failure
      cases below with
      | nil =>
          rintro _ ⟨⟩
          exact given
      | cons parent rest =>
          rw [List.forall_mem_cons] at known
          refine List.forall_mem_cons.mpr ⟨?_, known.2.2⟩
          exact { known.2.1 with failure := fun _ same => Option.some.inj same ▸ given }
  | skipped top below m rest supply stack candidates rejected steps =>
      rw [steps]
      simp only [Progress.Known, stack, List.forall_mem_cons] at known
      have le := Network.le_of_tryMethod rejected
      refine List.forall_mem_cons.mpr ⟨?_, fun frame member => (known.2 frame member).mono passes le⟩
      exact { known.1.mono passes le with
        candidates := fun m' later => known.1.candidates m' (candidates ▸ List.mem_cons_of_mem m later) }
  | entered top below m rest n supply stack candidates accepted steps =>
      rw [steps]
      simp only [Progress.Known, stack, List.forall_mem_cons] at known
      have le := Network.le_of_tryMethod accepted
      have tried : m ∈ setting.index.methodsFor top.task :=
        known.1.candidates m (candidates ▸ List.mem_cons_self)
      refine known_arrive turnsDown (List.forall_mem_cons.mpr ⟨?_, ?_⟩)
        (passes.child known.1.holds known.1.first tried known.1.room accepted)
      · exact { known.1.mono passes le with
          candidates := fun m' later => known.1.candidates m' (candidates ▸ List.mem_cons_of_mem m later) }
      · exact fun frame member => (known.2 frame member).mono passes le

theorem known_advance {p : Progress} (known : p.Known setting holds reason) (steps : Nat) :
    (advance setting steps p).Known setting holds reason := by
  induction steps generalizing p with
  | zero => exact known
  | succ steps ih =>
      cases p with
      | finished report => exact known
      | running search => exact ih (known_step passes turnsDown known)

end Search

end

section

variable {setting : Setting} {holds : Network → Nat → Supply → Prop}

namespace Search

theorem of_attempt? {reason : SearchFailure → Prop} {search : Search} {a : Attempt}
    (known : (Progress.running search).Known setting holds reason) (made : search.attempt? = some a) :
    a.network.firstCompound = .ok a.task ∧
      a.method ∈ setting.index.methodsFor a.task ∧ ∃ depth, holds a.network depth a.supply := by
  obtain ⟨root, stack, stats, supply⟩ := search
  cases stack with
  | nil => cases made
  | cons top below =>
      obtain ⟨m, next, rfl⟩ := Option.map_eq_some_iff.mp made
      have here := known top List.mem_cons_self
      exact ⟨here.first, here.candidates m (List.mem_of_head? next), top.depth, here.holds⟩

theorem of_visit? {reason : SearchFailure → Prop} (passes : setting.PassesOn holds) {search : Search}
    {visit : Visit} (known : (Progress.running search).Known setting holds reason)
    (comes : search.visit? = some visit) : ∃ supply, holds visit.network visit.depth supply := by
  obtain ⟨root, stack, stats, supply⟩ := search
  cases stack with
  | nil => cases comes
  | cons top below =>
      obtain ⟨m, next, comes⟩ := Option.bind_eq_some_iff.mp comes
      obtain ⟨n, accepted, ⟨⟩⟩ := Option.bind_eq_some_iff.mp comes
      have here := known top List.mem_cons_self
      exact ⟨_, passes.child here.holds here.first (here.candidates m (List.mem_of_head? next))
        here.room (Prod.ext accepted rfl)⟩

theorem forall_attempts (passes : setting.PassesOn holds) {p : Progress} {steps : Nat}
    (known : p.Known setting holds fun _ => True) : ∀ a ∈ attempts setting steps p,
      a.network.firstCompound = .ok a.task ∧ a.method ∈ setting.index.methodsFor a.task ∧
        ∃ depth, holds a.network depth a.supply := by
  induction steps generalizing p with
  | zero => exact nofun
  | succ steps ih =>
      cases p with
      | finished report => exact nofun
      | running search =>
          intro a member
          rcases List.mem_append.mp member with made | later
          · exact of_attempt? known (Option.mem_toList.mp made)
          · exact ih (known_step passes (.any setting holds) known) a later

theorem forall_visits (passes : setting.PassesOn holds) {p : Progress} {steps : Nat}
    (known : p.Known setting holds fun _ => True) :
    ∀ visit ∈ visits setting steps p, ∃ supply, holds visit.network visit.depth supply := by
  induction steps generalizing p with
  | zero => exact nofun
  | succ steps ih =>
      cases p with
      | finished report => exact nofun
      | running search =>
          intro visit member
          rcases List.mem_append.mp member with comes | later
          · exact of_visit? passes known (Option.mem_toList.mp comes)
          · exact ih (known_step passes (.any setting holds) known) visit later

end Search

namespace Setting

variable {n : Network} {supply : Supply} {steps : Nat}

theorem known_start {reason : SearchFailure → Prop} (first : holds n 0 supply)
    (turnsDown : setting.TurnsDown holds reason) :
    (setting.start n supply).Known setting holds reason := by
  obtain ⟨root, start⟩ := start_eq_arrive n supply
  exact start setting ▸ Search.known_arrive turnsDown (by simp) first

variable (passes : setting.PassesOn holds) (first : holds n 0 supply)
include passes first

theorem holds_of_visit : ∀ visit ∈ setting.visits n supply steps,
    ∃ supply', holds visit.network visit.depth supply' :=
  List.forall_mem_cons.mpr ⟨⟨supply, first⟩,
    Search.forall_visits passes (known_start first (.any setting holds))⟩

theorem holds_of_attempt : ∀ a ∈ Search.attempts setting steps (setting.start n supply),
    a.network.firstCompound = .ok a.task ∧ a.method ∈ setting.index.methodsFor a.task ∧
      ∃ depth, holds a.network depth a.supply :=
  Search.forall_attempts passes (known_start first (.any setting holds))

theorem reason_of_run {reason : SearchFailure → Prop} (turnsDown : setting.TurnsDown holds reason)
    {report : Report} (ended : Search.run setting steps (setting.start n supply) = some report)
    {failure : SearchFailure} (failed : report.result = .error failure) : reason failure := by
  have known := Search.known_advance passes turnsDown (known_start first turnsDown) steps
  rw [Search.run_eq_some_iff.mp ended] at known
  exact known failure failed

end Setting

end

end HtnPlanning
