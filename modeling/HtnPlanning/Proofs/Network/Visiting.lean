import HtnPlanning.Proofs.Network.Precedence
import Mathlib.Algebra.BigOperators.Group.Finset.Basic
import Mathlib.Algebra.Order.BigOperators.Group.Finset

namespace HtnPlanning

open Relation (ReflTransGen)

namespace Validator

variable {v : Validator} {id p q source target : TaskId} {marked : TaskSet}

def Leads (v : Validator) (p q : TaskId) : Prop :=
  q ∈ v.successors p

inductive Visited (v : Validator) (target : TaskId) : Visit → Bool ⊕ Visit → Prop where
  | finished {marked : TaskSet} : Visited v target ⟨marked, []⟩ (.inl false)
  | found {marked : TaskSet} {rest : List TaskId} : Visited v target ⟨marked, target :: rest⟩ (.inl true)
  | dropped {marked : TaskSet} {id : TaskId} {rest : List TaskId} (other : id ≠ target)
      (again : id ∈ marked) : Visited v target ⟨marked, id :: rest⟩ (.inr ⟨marked, rest⟩)
  | entered {marked : TaskSet} {id : TaskId} {rest : List TaskId} (other : id ≠ target)
      (first : id ∉ marked) : Visited v target ⟨marked, id :: rest⟩
        (.inr ⟨marked.insert id, ((v.successors id).filter (· ∉ marked.insert id)).reverse ++ rest⟩)

theorem visited (v : Validator) (target : TaskId) (visit : Visit) :
    v.Visited target visit (v.visitNext target visit) := by
  obtain ⟨marked, stack⟩ := visit
  cases stack with
  | nil => exact .finished
  | cons id rest =>
      dsimp only [visitNext]
      split
      next same => exact same ▸ .found
      next other =>
        split
        next again => exact .dropped other again
        next first => exact .entered other first

def unmarked (v : Validator) (marked : TaskSet) : Finset TaskId :=
  v.outgoing.keys.toFinset.filter (· ∉ marked)

theorem mem_unmarked : p ∈ v.unmarked marked ↔ p ∈ v.outgoing ∧ p ∉ marked := by
  simp [unmarked]

theorem unmarked_insert : v.unmarked (marked.insert id) = (v.unmarked marked).erase id := by
  ext p
  simp only [mem_unmarked, Finset.mem_erase, Std.ExtTreeSet.mem_insert,
    Std.LawfulEqOrd.compare_eq_iff_eq, eq_comm (a := id)]
  tauto

theorem successors_of_not_mem (absent : id ∉ v.outgoing) : v.successors id = [] := by
  rw [successors, Std.ExtTreeMap.getElem?_eq_none absent]
  rfl

theorem pending_eq (visit : Visit) : visit.pending v =
    visit.stack.length + ∑ p ∈ v.unmarked visit.marked, (v.successors p).length := by
  have distinct : (v.outgoing.keys.filter (· ∉ visit.marked)).Nodup :=
    Std.ExtTreeMap.nodup_keys.filter _
  rw [Visit.pending, List.length_flatMap, ← List.sum_toFinset _ distinct, unmarked, List.toFinset_filter]
  simp only [decide_eq_true_eq]

theorem sum_unmarked (first : id ∉ marked) :
    (v.successors id).length + ∑ p ∈ v.unmarked (marked.insert id), (v.successors p).length =
      ∑ p ∈ v.unmarked marked, (v.successors p).length := by
  rw [unmarked_insert]
  by_cases edges : id ∈ v.outgoing
  · exact Finset.add_sum_erase _ (fun p => (v.successors p).length) (mem_unmarked.mpr ⟨edges, first⟩)
  · have outside : id ∉ v.unmarked marked := fun inside => edges (mem_unmarked.mp inside).1
    rw [Finset.erase_eq_of_notMem outside, successors_of_not_mem edges, List.length_nil, Nat.zero_add]

theorem pending_lt {visit next : Visit} (goesOn : v.visitNext target visit = .inr next) :
    next.pending v < visit.pending v := by
  have step := goesOn ▸ v.visited target visit
  cases step with
  | dropped =>
      simp only [pending_eq, List.length_cons]
      omega
  | @entered marked id rest _ first =>
      have fewer := List.length_filter_le (fun q => decide (q ∉ marked.insert id)) (v.successors id)
      have sum := sum_unmarked (v := v) first
      simp only [pending_eq, List.length_append, List.length_reverse, List.length_cons]
      omega

theorem visit_ends {visit : Visit} {steps : Nat} (enough : visit.pending v < steps) :
    ∃ answer, v.visit target steps visit = some answer := by
  induction steps generalizing visit with
  | zero => cases enough
  | succ steps ih =>
      rw [Validator.visit]
      cases step : v.visitNext target visit with
      | inl answer => exact ⟨answer, rfl⟩
      | inr next => exact ih (Nat.lt_of_lt_of_le (pending_lt step) (Nat.le_of_lt_succ enough))

theorem path_of_visit {visit : Visit} {steps : Nat} (found : v.visit target steps visit = some true) :
    ∃ source ∈ visit.stack, ReflTransGen v.Leads source target := by
  induction steps generalizing visit with
  | zero => cases found
  | succ steps ih =>
      rw [Validator.visit] at found
      have step := v.visited target visit
      generalize v.visitNext target visit = outcome at step found
      cases step with
      | finished => cases found
      | found => exact ⟨target, List.mem_cons_self, .refl⟩
      | dropped =>
          obtain ⟨source, onStack, path⟩ := ih found
          exact ⟨source, List.mem_cons_of_mem _ onStack, path⟩
      | @entered marked id rest =>
          obtain ⟨source, onStack, path⟩ := ih found
          rcases List.mem_append.mp onStack with put | below
          · have leads : v.Leads id source := (List.mem_filter.mp (List.mem_reverse.mp put)).1
            exact ⟨id, List.mem_cons_self, .head leads path⟩
          · exact ⟨source, List.mem_cons_of_mem _ below, path⟩

/-- What the source reaches through marked tasks only is marked or on the stack. -/
structure Visit.Covers (visit : Visit) (v : Validator) (source target : TaskId) : Prop where
  begun : source ∈ visit.marked ∨ source ∈ visit.stack
  closed : ∀ p ∈ visit.marked, ∀ q, v.Leads p q → q ∈ visit.marked ∨ q ∈ visit.stack
  missed : target ∉ visit.marked

theorem Visit.Covers.next {visit next : Visit} (covers : visit.Covers v source target)
    (goesOn : v.visitNext target visit = .inr next) : next.Covers v source target := by
  have step := goesOn ▸ v.visited target visit
  obtain ⟨begun, closed, missed⟩ := covers
  cases step with
  | @dropped marked id rest _ again =>
      have kept {q : TaskId} : q ∈ marked ∨ q ∈ id :: rest → q ∈ marked ∨ q ∈ rest := by
        rintro (inside | onStack)
        · exact .inl inside
        · rcases List.mem_cons.mp onStack with rfl | below
          · exact .inl again
          · exact .inr below
      exact ⟨kept begun, fun p inside q leads => kept (closed p inside q leads), missed⟩
  | @entered marked id rest other first =>
      have grown {q : TaskId} : q ∈ marked.insert id ↔ id = q ∨ q ∈ marked := by
        rw [Std.ExtTreeSet.mem_insert, Std.LawfulEqOrd.compare_eq_iff_eq]
      have kept {q : TaskId} : q ∈ marked ∨ q ∈ id :: rest → q ∈ marked.insert id ∨
          q ∈ ((v.successors id).filter (· ∉ marked.insert id)).reverse ++ rest := by
        rintro (inside | onStack)
        · exact .inl (grown.mpr (.inr inside))
        · rcases List.mem_cons.mp onStack with rfl | below
          · exact .inl (grown.mpr (.inl rfl))
          · exact .inr (List.mem_append_right _ below)
      refine ⟨kept begun, fun p inside q leads => ?_, fun inside => ?_⟩
      · rcases grown.mp inside with rfl | old
        · by_cases seen : q ∈ marked.insert id
          · exact .inl seen
          · refine .inr (List.mem_append_left _ (List.mem_reverse.mpr ?_))
            exact List.mem_filter.mpr ⟨leads, decide_eq_true seen⟩
        · exact kept (closed p old q leads)
      · exact (grown.mp inside).elim other missed

theorem Visit.Covers.not_path {visit : Visit} (covers : visit.Covers v source target)
    (empty : visit.stack = []) : ¬ ReflTransGen v.Leads source target := by
  obtain ⟨begun, closed, missed⟩ := covers
  simp only [empty, List.not_mem_nil, or_false] at begun closed
  have reached {id : TaskId} (path : ReflTransGen v.Leads source id) :
      id ∈ visit.marked := by
    induction path with
    | refl => exact begun
    | tail _ leads ih => exact closed _ ih _ leads
  exact fun path => missed (reached path)

theorem not_path_of_visit {visit : Visit} {steps : Nat} (covers : visit.Covers v source target)
    (missed : v.visit target steps visit = some false) :
    ¬ ReflTransGen v.Leads source target := by
  induction steps generalizing visit with
  | zero => cases missed
  | succ steps ih =>
      rw [Validator.visit] at missed
      cases step : v.visitNext target visit with
      | inr next => exact ih (covers.next step) (by simpa only [step] using missed)
      | inl answer =>
          simp only [step, Option.some.injEq] at missed
          cases missed ▸ step ▸ v.visited target visit with
          | finished => exact covers.not_path rfl

theorem visit_iff {steps : Nat} (enough : (⟨∅, [source]⟩ : Visit).pending v < steps) :
    ∃ answer, v.visit target steps ⟨∅, [source]⟩ = some answer ∧
      (answer = true ↔ ReflTransGen v.Leads source target) := by
  obtain ⟨answer, ended⟩ : ∃ answer, v.visit target steps ⟨∅, [source]⟩ = some answer :=
    visit_ends enough
  refine ⟨answer, ended, ?_⟩
  cases answer with
  | true =>
      obtain ⟨first, onStack, path⟩ := path_of_visit ended
      exact iff_of_true rfl (List.mem_singleton.mp onStack ▸ path)
  | false =>
      have covers : (⟨∅, [source]⟩ : Visit).Covers v source target :=
        ⟨.inr List.mem_cons_self, by simp, by simp⟩
      exact iff_of_false Bool.false_ne_true (not_path_of_visit covers ended)

theorem reachable_iff_leads :
    v.reachable source target = true ↔ ReflTransGen v.Leads source target := by
  have enough := Nat.lt_succ_self ((⟨∅, [source]⟩ : Visit).pending v)
  obtain ⟨answer, ended, right⟩ : ∃ answer, v.visit target _ ⟨∅, [source]⟩ = some answer ∧ _ :=
    visit_iff enough
  rw [← right, reachable, ended]
  cases answer <;> simp

theorem reachable_congr {w : Validator} (same : v.outgoing = w.outgoing) :
    v.reachable source target = w.reachable source target := by
  have leads : v.Leads = w.Leads := by
    funext p q
    rw [Leads, Leads, successors, successors, same]
  rw [Bool.eq_iff_iff, reachable_iff_leads, reachable_iff_leads, leads]

theorem visit_eq_reachable {steps : Nat} (enough : (⟨∅, [source]⟩ : Visit).pending v < steps) :
    v.visit target steps ⟨∅, [source]⟩ = some (v.reachable source target) := by
  obtain ⟨answer, ended, right⟩ : ∃ answer, v.visit target steps ⟨∅, [source]⟩ = some answer ∧ _ :=
    visit_iff enough
  rw [ended, Bool.eq_iff_iff.mpr (right.trans reachable_iff_leads.symm)]

end Validator

end HtnPlanning
