import HtnPlanning.Proofs.Network.Precedence
import HtnPlanning.Search

namespace HtnPlanning.Setting

variable {setting : Setting} {n : Network} {depth limit : Nat} {stats : Stats} {plan : Plan}
  {failure : SearchFailure} {frame : Frame} {examination : Examination}

def WithinBudget (setting : Setting) (stats : Stats) : Prop :=
  ∀ budget, setting.config.nodeBudget = some budget → stats.nodes ≤ budget

def Prunes (setting : Setting) (n : Network) : Prop :=
  setting.config.pruneDeadEnds = true ∧ setting.isUnsolvable n = true

inductive Examined (setting : Setting) (n : Network) (depth : Nat) (stats : Stats) :
    Examination → Prop where
  | overBudget {budget : Nat} (known : setting.config.nodeBudget = some budget)
      (past : budget < stats.nodes) : Examined setting n depth stats (.stopped (.budgetExhausted budget))
  | pruned (within : setting.WithinBudget stats) (prunes : setting.Prunes n) :
      Examined setting n depth stats (.failed .pruned)
  | planned {plan : Plan} (within : setting.WithinBudget stats) (kept : ¬ setting.Prunes n)
      (primitive : n.isPrimitive = true) (gives : setting.linearize n = .ok plan) :
      Examined setting n depth stats (.solved plan)
  | unplanned {failure : SearchFailure} (within : setting.WithinBudget stats)
      (kept : ¬ setting.Prunes n) (primitive : n.isPrimitive = true)
      (gives : setting.linearize n = .error failure) : Examined setting n depth stats (.failed failure)
  | tooDeep {t : Task} {limit : Nat} (within : setting.WithinBudget stats) (kept : ¬ setting.Prunes n)
      (first : n.firstCompound = .ok t) (limited : setting.config.maxDepth = some limit)
      (reached : limit ≤ depth) : Examined setting n depth stats (.failed (.depthLimit limit))
  | opened {t : Task} (within : setting.WithinBudget stats) (kept : ¬ setting.Prunes n)
      (first : n.firstCompound = .ok t)
      (room : ∀ limit, setting.config.maxDepth = some limit → depth < limit) :
      Examined setting n depth stats (.opened ⟨n, t, setting.index.methodsFor t, depth, none⟩)

theorem WithinBudget.filter_eq_none (within : setting.WithinBudget stats) :
    setting.config.nodeBudget.filter (· < stats.nodes) = none := by
  rw [Option.filter_eq_none_iff]
  exact fun budget known => by simpa using within budget known

theorem withinBudget_or (setting : Setting) (stats : Stats) : setting.WithinBudget stats ∨
    ∃ budget, setting.config.nodeBudget = some budget ∧ budget < stats.nodes := by
  by_contra neither
  obtain ⟨notWithin, notPast⟩ := not_or.mp neither
  exact notWithin fun budget known => Nat.le_of_not_lt fun less => notPast ⟨budget, known, less⟩

theorem examined (setting : Setting) (n : Network) (depth : Nat) (stats : Stats) :
    setting.Examined n depth stats (setting.examine n depth stats) := by
  rcases withinBudget_or setting stats with within | ⟨budget, known, past⟩
  · simp only [examine, within.filter_eq_none]
    split
    next prunes => exact .pruned within (Bool.and_eq_true_iff.mp prunes)
    next prunes =>
      have kept : ¬ setting.Prunes n := mt Bool.and_eq_true_iff.mpr prunes
      cases first : n.firstCompound with
      | error _ =>
          have primitive := Network.firstCompound_eq_error.mp first
          cases gives : setting.linearize n with
          | ok plan => exact .planned within kept primitive gives
          | error failure => exact .unplanned within kept primitive gives
      | ok t =>
          cases reached : setting.config.maxDepth.filter (· ≤ depth) with
          | some limit =>
              obtain ⟨limited, le⟩ := Option.filter_eq_some_iff.mp reached
              exact .tooDeep within kept first limited (of_decide_eq_true le)
          | none =>
              rw [Option.filter_eq_none_iff] at reached
              exact .opened within kept first fun limit limited =>
                Nat.lt_of_not_le fun le => reached limit limited (decide_eq_true le)
  · simp only [examine, known, Option.filter_some, past, decide_true, if_true]
    exact .overBudget known past

theorem Examined.eq (found : setting.Examined n depth stats examination) :
    setting.examine n depth stats = examination := by
  have prunes : (setting.config.pruneDeadEnds && setting.isUnsolvable n) = true ↔ setting.Prunes n :=
    Bool.and_eq_true_iff
  cases found with
  | overBudget known past =>
      simp only [examine, known, Option.filter_some, past, decide_true, if_true]
  | pruned within pruned => simp only [examine, within.filter_eq_none, prunes.mpr pruned, if_true]
  | planned within kept primitive gives | unplanned within kept primitive gives =>
      have none : n.firstCompound = .error {} := Network.firstCompound_eq_error.mpr primitive
      simp only [examine, within.filter_eq_none, if_neg (mt prunes.mp kept), none, gives]
  | tooDeep within kept first limited reached =>
      simp only [examine, within.filter_eq_none, if_neg (mt prunes.mp kept), first, limited,
        Option.filter_some, reached, decide_true, if_true]
  | opened within kept first room =>
      have unlimited : setting.config.maxDepth.filter (· ≤ depth) = none := by
        rw [Option.filter_eq_none_iff]
        exact fun limit limited => by simpa using room limit limited
      simp only [examine, within.filter_eq_none, if_neg (mt prunes.mp kept), first, unlimited]

theorem examine_eq_iff :
    setting.examine n depth stats = examination ↔ setting.Examined n depth stats examination :=
  ⟨fun same => same ▸ setting.examined n depth stats, Examined.eq⟩

/-- The checks of an examination, each made where those before it found nothing: the node budget, dead ends,
the plan of a primitive network, the depth limit, and last the methods for the first compound task. -/
theorem examine_in_order (setting : Setting) (n : Network) (depth : Nat) (stats : Stats) :
    (∀ budget, setting.config.nodeBudget = some budget → budget < stats.nodes →
      setting.examine n depth stats = .stopped (.budgetExhausted budget)) ∧
    (setting.WithinBudget stats →
      (setting.Prunes n → setting.examine n depth stats = .failed .pruned) ∧
      (¬ setting.Prunes n →
        (n.isPrimitive = true →
          (∀ plan, setting.linearize n = .ok plan → setting.examine n depth stats = .solved plan) ∧
          ∀ failure, setting.linearize n = .error failure →
            setting.examine n depth stats = .failed failure) ∧
        ∀ t, n.firstCompound = .ok t →
          (∀ limit, setting.config.maxDepth = some limit → limit ≤ depth →
            setting.examine n depth stats = .failed (.depthLimit limit)) ∧
          ((∀ limit, setting.config.maxDepth = some limit → depth < limit) →
            setting.examine n depth stats =
              .opened ⟨n, t, setting.index.methodsFor t, depth, none⟩))) := by
  refine ⟨fun budget known past => (Examined.overBudget known past).eq, fun within =>
    ⟨fun prunes => (Examined.pruned within prunes).eq, fun kept => ⟨fun primitive => ⟨?_, ?_⟩,
      fun t first => ⟨?_, ?_⟩⟩⟩⟩
  · exact fun plan gives => (Examined.planned within kept primitive gives).eq
  · exact fun failure gives => (Examined.unplanned within kept primitive gives).eq
  · exact fun limit limited reached => (Examined.tooDeep within kept first limited reached).eq
  · exact fun room => (Examined.opened within kept first room).eq

theorem examine_solved (solved : setting.examine n depth stats = .solved plan) :
    n.isPrimitive = true ∧ setting.linearize n = .ok plan := by
  cases examine_eq_iff.mp solved with
  | planned _ _ primitive gives => exact ⟨primitive, gives⟩

theorem examine_opened (opened : setting.examine n depth stats = .opened frame) :
    n.firstCompound = .ok frame.task ∧
      frame = ⟨n, frame.task, setting.index.methodsFor frame.task, depth, none⟩ := by
  cases examine_eq_iff.mp opened with
  | opened _ _ first => exact ⟨first, rfl⟩

theorem examine_opened_lt (limited : setting.config.maxDepth = some limit)
    (opened : setting.examine n depth stats = .opened frame) : depth < limit := by
  cases examine_eq_iff.mp opened with
  | opened _ _ _ room => exact room limit limited

theorem examine_not_stopped (unbounded : setting.config.nodeBudget = none) :
    setting.examine n depth stats ≠ .stopped failure := by
  intro stopped
  cases examine_eq_iff.mp stopped with
  | overBudget known =>
      rw [unbounded] at known
      cases known

theorem examine_failed (limited : setting.config.maxDepth = some limit)
    (failed : setting.examine n depth stats = .failed failure) :
    setting.isUnsolvable n = true ∨
      (n.isPrimitive = true ∧ ∃ error, setting.linearize n = .error error) ∨
      ∃ t, n.firstCompound = .ok t ∧ limit ≤ depth := by
  cases examine_eq_iff.mp failed with
  | pruned _ prunes => exact .inl prunes.2
  | unplanned _ _ primitive gives => exact .inr (.inl ⟨primitive, failure, gives⟩)
  | tooDeep _ _ first known reached =>
      rw [limited, Option.some.injEq] at known
      exact .inr (.inr ⟨_, first, known ▸ reached⟩)

end HtnPlanning.Setting
