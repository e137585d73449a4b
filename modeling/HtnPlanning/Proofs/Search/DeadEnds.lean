import HtnPlanning.Proofs.Search.Derivation
import HtnPlanning.Proofs.Search.Soundness

namespace HtnPlanning

/-- One network becomes another when some compound task of it is decomposed by a copy of a method of
the domain under the unifier of the two. The copy and the supply that decomposition issues from are
told as well. -/
def Domain.Applies [Counters] (d : Domain) (n : Network) (copy : Method) (supply : Supply)
    (next : Network) : Prop :=
  ∃ t ∈ n.taskList, t.primitive = false ∧ ∃ m ∈ d.methods, ∃ source s,
    (m.standardizeApart source).1 = copy ∧ copy.unifier t = .ok s ∧
      (n.decompose s t copy supply).1 = .ok next

def Domain.AppliesFreshly [Counters] (d : Domain) (n next : Network) : Prop :=
  ∃ copy supply, d.Applies n copy supply next ∧ n.Fresh copy supply

namespace Setting

variable {setting : Setting} {d : Domain} {n next final : Network} {t : Task} {m copy : Method}
  {depth calls : Nat} {stats : Stats} {supply supply' : Supply} {e : Exploration} {plan : Plan}

theorem wellFormed_of_applies [Counters] (applies : d.Applies n copy supply next)
    (formed : n.WellFormed) : next.WellFormed := by
  obtain ⟨t, -, -, m, -, source, s, -, -, decomposed⟩ := applies
  exact formed.decompose (Prod.ext decomposed rfl)

theorem isUnsolvable_of_applies [Counters] (indexed : setting.index = .ofDomain d)
    (applies : d.Applies n copy supply next) (fresh : n.Fresh copy supply) (formed : n.WellFormed)
    (unsolvable : setting.isUnsolvable n = true) : setting.isUnsolvable next = true := by
  obtain ⟨t, member, compound, m, known, source, s, rfl, unifies, decomposed⟩ := applies
  rw [Method.unifier_standardizeApart] at unifies
  have alive : setting.isDeadEnd t = false :=
    not_isDeadEnd_of_copyUnifier indexed known compound (ok_of_mapError unifies)
  refine isUnsolvable_of_kept s.image formed member alive (fun u listed other => ?_) unsolvable
  rw [← Task.apply_eq_subst]
  exact fresh.mem_decompose formed (Prod.ext decomposed rfl) listed other

theorem not_linearize_of_isUnsolvable [Counters] (indexed : setting.index = .ofDomain d)
    (formed : n.WellFormed) (unsolvable : setting.isUnsolvable n = true)
    (path : Relation.ReflTransGen d.AppliesFreshly n final)
    (primitive : final.isPrimitive = true)
    (permutes : ∀ ordered, setting.sorter final.taskList final.constraints.toList = .ok ordered →
      ordered.Perm final.taskList) : setting.linearize final ≠ .ok plan := by
  have kept : final.WellFormed ∧ setting.isUnsolvable final = true := by
    clear primitive permutes
    induction path with
    | refl => exact ⟨formed, unsolvable⟩
    | tail _ step ih =>
        obtain ⟨copy, supply, applies, fresh⟩ := step
        exact ⟨wellFormed_of_applies applies ih.1,
          isUnsolvable_of_applies indexed applies fresh ih.1 ih.2⟩
  intro gives
  rw [not_isUnsolvable_of_linearize indexed kept.1 permutes primitive gives] at kept
  exact Bool.false_ne_true kept.2

theorem applies_of_tryMethod (known : m ∈ d.methods) (before : n.IssuedBefore supply)
    (first : n.firstCompound = .ok t) (accepted : n.tryMethod t m supply = (some next, supply')) :
    d.AppliesFreshly n next := by
  obtain ⟨member, compound, -⟩ := before.toWellFormed.firstCompound_eq_ok.mp first
  obtain ⟨s, unifies, decomposed⟩ := Network.tryMethod_eq_some.mp accepted
  rw [Method.supply_standardizeApart] at decomposed
  exact ⟨_, _, ⟨t, member, compound, m, known, supply, s, rfl, unifies, congrArg Prod.fst decomposed⟩,
    before.fresh m⟩

theorem explore_applies (indexed : setting.index = .ofDomain d)
    (templates : ∀ m ∈ d.methods, m.template.Valid)
    (found : setting.explore calls n depth stats supply = some e) :
    supply ≤ e.supply ∧ (n.IssuedBefore supply → ∀ plan, e.verdict = .solved plan →
      ∃ final, Relation.ReflTransGen d.AppliesFreshly n final ∧ final.IssuedBefore e.supply ∧
        final.isPrimitive = true ∧ setting.linearize final = .ok plan) := by
  refine @explore_induction setting
    (fun n _ _ supply e => supply ≤ e.supply ∧ (n.IssuedBefore supply → ∀ plan,
      e.verdict = .solved plan → ∃ final, Relation.ReflTransGen d.AppliesFreshly n final ∧
        final.IssuedBefore e.supply ∧ final.isPrimitive = true ∧ setting.linearize final = .ok plan))
    (fun n t _ candidates _ _ supply e => supply ≤ e.supply ∧ (n.firstCompound = .ok t →
      (∀ m ∈ candidates, m ∈ d.methods) → n.IssuedBefore supply → ∀ plan,
      e.verdict = .solved plan → ∃ final, Relation.ReflTransGen d.AppliesFreshly n final ∧
        final.IssuedBefore e.supply ∧ final.isPrimitive = true ∧ setting.linearize final = .ok plan))
    ?solved ?stopped ?refused ?opened ?exhausted ?rejected ?childRefused ?childExhausted ?childDecided
    calls n depth stats supply e found
  case solved =>
    intro n depth stats supply plan' examination
    refine ⟨supply.le_refl, fun before plan verdict => ?_⟩
    cases verdict
    exact ⟨n, .refl, before, examine_solved examination⟩
  case stopped | refused =>
    intro n depth stats supply failure examination
    exact ⟨supply.le_refl, fun before plan verdict => by cases verdict⟩
  case opened =>
    intro n depth stats supply frame e examination ih
    obtain ⟨first, form⟩ := examine_opened examination
    refine ⟨ih.1, ih.2 first fun m member => ?_⟩
    rw [form, indexed] at member
    exact DomainIndex.mem_of_methodsFor member
  case exhausted =>
    intro n t depth last stats supply
    exact ⟨supply.le_refl, fun first candidates before plan verdict => by cases verdict⟩
  case rejected =>
    intro n t depth m rest last stats supply supply' others attempt ih
    have le := Network.le_of_tryMethod attempt
    refine ⟨Supply.le_trans le ih.1, fun first candidates before => ?_⟩
    exact ih.2 first (fun m' later => candidates m' (List.mem_cons_of_mem m later)) (before.mono le)
  case childRefused | childExhausted =>
    intro n t depth m rest last stats supply next supply' e failure others attempt child verdict ih
    have le := Supply.le_trans (Network.le_of_tryMethod attempt) child.1
    refine ⟨Supply.le_trans le ih.1, fun first candidates before => ?_⟩
    exact ih.2 first (fun m' later => candidates m' (List.mem_cons_of_mem m later)) (before.mono le)
  case childDecided =>
    intro n t depth m rest last stats supply next supply' e attempt child notRefused notExhausted
    have le := Supply.le_trans (Network.le_of_tryMethod attempt) child.1
    refine ⟨le, fun first candidates before plan verdict => ?_⟩
    have known := candidates m List.mem_cons_self
    have member := (before.toWellFormed.firstCompound_eq_ok.mp first).1
    have issued := (before.tryMethod_eq_some (templates m known) member attempt).2.1
    obtain ⟨final, path, ends⟩ := child.2 issued plan verdict
    exact ⟨final, .head (applies_of_tryMethod known before first attempt) path, ends⟩

theorem nodes_lt_of_explore (found : setting.explore calls n depth stats supply = some e) :
    stats.nodes < e.stats.nodes := by
  refine @explore_induction setting
    (fun _ _ stats _ e => stats.nodes < e.stats.nodes)
    (fun _ _ _ _ _ stats _ e => stats.nodes ≤ e.stats.nodes)
    ?solved ?stopped ?refused ?opened ?exhausted ?rejected ?childRefused ?childExhausted ?childDecided
    calls n depth stats supply e found
  case solved | stopped | refused => exact fun n depth stats supply _ examination => Nat.lt_succ_self _
  case opened => exact fun n depth stats supply frame e examination ih => ih
  case exhausted => exact fun n t depth last stats supply => Nat.le_refl _
  case rejected => exact fun n t depth m rest last stats supply supply' others attempt ih => ih
  case childRefused | childExhausted =>
    exact fun n t depth m rest last stats supply next supply' e failure others attempt child _ ih =>
      Nat.le_trans (Nat.le_of_lt child) ih
  case childDecided =>
    exact fun n t depth m rest last stats supply next supply' e attempt child _ _ => Nat.le_of_lt child

end Setting

end HtnPlanning
