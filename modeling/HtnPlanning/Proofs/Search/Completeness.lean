import HtnPlanning.Proofs.Search.Derivation
import HtnPlanning.Proofs.Search.Soundness
import HtnPlanning.Samples.Spin

/-!
# Completeness of the search under a depth limit

With a limit on the depth and no other one the search always ends. It finds a plan when some
derivation within the limit has one, and then it is the plan of the first such derivation.
-/

namespace HtnPlanning

/-- What the end of a search tells about the sequences of choices that it is about: it is not cut
short, a plan is that of the first sequence accepted, and without a plan none is accepted. -/
structure Verdict.Decides (v : Verdict) (accepted : List Nat → Plan → Prop) : Prop where
  complete : ∀ failure, v ≠ .stopped failure
  first : ∀ plan, v = .solved plan → ∃ choices, accepted choices plan ∧
    ∀ other plan', accepted other plan' → choices = other ∨ List.Lex (· < ·) choices other
  none : (∀ plan, v ≠ .solved plan) → ∀ choices plan, ¬ accepted choices plan

theorem Verdict.Decides.congr {v : Verdict} {accepted accepted' : List Nat → Plan → Prop}
    (decides : v.Decides accepted) (same : ∀ choices plan, accepted' choices plan ↔ accepted choices plan) :
    v.Decides accepted' := by
  have eq : accepted' = accepted := funext fun choices => funext fun plan => propext (same choices plan)
  rwa [eq]

/-! ## Candidates -/

def Domain.methodsFrom (d : Domain) (name : String) (start : Nat) : List Method :=
  (d.methods.drop start).filter fun m => m.pattern.name = name

structure Domain.NextFor (d : Domain) (name : String) (start choice : Nat) (m : Method)
    (rest : List Method) : Prop where
  le : start ≤ choice
  present : d.methods[choice]? = some m
  skipped : ∀ i m', start ≤ i → i < choice → d.methods[i]? = some m' → m'.pattern.name ≠ name
  later : d.methodsFrom name (choice + 1) = rest

theorem Domain.methodsFrom_eq_cons {d : Domain} {name : String} {start : Nat} {m : Method}
    {rest : List Method} (candidates : d.methodsFrom name start = m :: rest) :
    ∃ choice, d.NextFor name start choice m rest := by
  obtain ⟨skipped, others, split, none, -, later⟩ := List.filter_eq_cons_iff.mp candidates
  have at_ (i : Nat) : d.methods[start + i]? = (skipped ++ m :: others)[i]? := by
    rw [← split, List.getElem?_drop]
  refine ⟨start + skipped.length, Nat.le_add_right .., ?_, fun i m' above below present => ?_, ?_⟩
  · simp [at_]
  · obtain ⟨k, rfl⟩ := Nat.exists_eq_add_of_le above
    rw [at_, List.getElem?_append_left (Nat.lt_of_add_lt_add_left below)] at present
    exact fun same => none m' (List.mem_of_getElem? present) (decide_eq_true same)
  · have remaining : d.methods.drop (start + skipped.length + 1) = others := by
      rw [Nat.add_assoc, ← List.drop_drop, split, List.drop_append]
      simp
    rw [methodsFrom, remaining, later]

namespace Setting

variable {setting : Setting} {d : Domain} {n next : Network} {t : Task} {m : Method}
  {limit depth start choice : Nat} {choices : List Nat} {stats : Stats} {supply supply' : Supply}
  {plan : Plan} {failure : SearchFailure} {rest : List Method}

def AcceptsFrom (setting : Setting) (d : Domain) (limit depth : Nat) (n : Network) (supply : Supply)
    (start : Nat) (choices : List Nat) (plan : Plan) : Prop :=
  (∀ choice ∈ choices.head?, start ≤ choice) ∧ choices.length + depth ≤ limit ∧
    setting.Accepts d choices n supply plan

theorem not_acceptsFrom_of_nil (first : n.firstCompound = .ok t)
    (candidates : d.methodsFrom t.name start = []) :
    ¬ setting.AcceptsFrom d limit depth n supply start choices plan := by
  rintro ⟨above, -, accepts⟩
  cases choices with
  | nil => exact not_accepts_nil first accepts
  | cons choice choices =>
      obtain ⟨m, next, supply', present, accepted, -⟩ := (accepts_cons first).mp accepts
      have inDrop : m ∈ d.methods.drop start := by
        refine List.mem_of_getElem? (i := choice - start) ?_
        rw [List.getElem?_drop, Nat.add_sub_cancel' (above choice rfl), present]
      have candidate : m ∈ d.methodsFrom t.name start :=
        List.mem_filter.mpr ⟨inDrop, decide_eq_true (Network.name_of_tryMethod accepted)⟩
      rw [candidates] at candidate
      cases candidate

theorem accepts_candidate (first : n.firstCompound = .ok t)
    (candidate : d.NextFor t.name start choice m rest) :
    setting.Accepts d (choice :: choices) n supply plan ↔ ∃ next supply',
      n.tryMethod t m supply = (some next, supply') ∧ setting.Accepts d choices next supply' plan := by
  rw [accepts_cons first, candidate.present]
  constructor
  · rintro ⟨_, next, supply', ⟨⟩, accepted, accepts⟩
    exact ⟨next, supply', accepted, accepts⟩
  · rintro ⟨next, supply', accepted, accepts⟩
    exact ⟨m, next, supply', rfl, accepted, accepts⟩

theorem acceptsFrom_skip (sorted : setting.sorter = TaskOrder.topological)
    (templates : ∀ m ∈ d.methods, m.template.Valid)
    (first : n.firstCompound = .ok t) (before : n.IssuedBefore supply) (le : supply ≤ supply')
    (candidate : d.NextFor t.name start choice m rest)
    (refused : ∀ choices plan, choices.length + (depth + 1) ≤ limit →
      ¬ setting.Accepts d (choice :: choices) n supply plan) :
    setting.AcceptsFrom d limit depth n supply start choices plan ↔
      setting.AcceptsFrom d limit depth n supply' (choice + 1) choices plan := by
  rw [AcceptsFrom, AcceptsFrom, accepts_alike sorted templates (before.alike le)]
  constructor
  · rintro ⟨above, within, accepts⟩
    refine ⟨fun i head => ?_, within, accepts⟩
    obtain ⟨choices, rfl⟩ := List.head?_eq_some_iff.mp head
    obtain ⟨m', next, supply', present, accepted, -⟩ := (accepts_cons first).mp accepts
    rcases Nat.lt_trichotomy i choice with before | rfl | after
    · exact absurd (Network.name_of_tryMethod accepted) (candidate.skipped i m' (above i rfl) before present)
    · refine absurd accepts (refused choices plan ?_)
      rw [List.length_cons] at within
      omega
    · exact after
  · rintro ⟨above, within, accepts⟩
    exact ⟨fun i head => Nat.le_trans candidate.le (Nat.le_of_succ_le (above i head)), within, accepts⟩

/-! ## The search below a network -/

theorem decides_solved (examination : setting.examine n depth stats = .solved plan)
    (le : depth ≤ limit) :
    (Verdict.solved plan).Decides (setting.AcceptsFrom d limit depth n supply 0) where
  complete failure := by simp
  first plan' solved := by
    cases solved
    obtain ⟨primitive, gives⟩ := examine_solved examination
    refine ⟨[], ⟨nofun, by simpa using le, accepts_nil.mpr ⟨primitive, gives⟩⟩, fun other _ _ => ?_⟩
    cases other with
    | nil => exact .inl rfl
    | cons choice others => exact .inr .nil
  none unsolved := absurd rfl (unsolved plan)

theorem decides_first (first : n.firstCompound = .ok t)
    (candidate : d.NextFor t.name start choice m rest)
    (accepted : n.tryMethod t m supply = (some next, supply')) {v : Verdict}
    (child : v.Decides (setting.AcceptsFrom d limit (depth + 1) next supply' 0))
    (solved : v = .solved plan) : v.Decides (setting.AcceptsFrom d limit depth n supply start) where
  complete := child.complete
  first plan' again := by
    obtain ⟨choices, ⟨-, within, accepts⟩, least⟩ := child.first plan' again
    refine ⟨choice :: choices, ⟨?_, ?_, ?_⟩, ?_⟩
    · rintro _ ⟨⟩
      exact candidate.le
    · rw [List.length_cons]
      omega
    · exact (accepts_candidate first candidate).mpr ⟨next, supply', accepted, accepts⟩
    · rintro (_ | ⟨other, others⟩) plan'' ⟨above, otherWithin, otherAccepts⟩
      · exact absurd otherAccepts (not_accepts_nil first)
      · rcases Nat.lt_trichotomy choice other with less | rfl | greater
        · exact .inr (.rel less)
        · obtain ⟨_, _, attempt, ends⟩ := (accepts_candidate first candidate).mp otherAccepts
          rw [accepted] at attempt
          cases attempt
          have below : others.length + (depth + 1) ≤ limit := by
            rw [List.length_cons] at otherWithin
            omega
          rcases least others plan'' ⟨fun _ _ => Nat.zero_le _, below, ends⟩ with rfl | later
          · exact .inl rfl
          · exact .inr (.cons later)
        · obtain ⟨m', _, _, present, attempt, -⟩ := (accepts_cons first).mp otherAccepts
          exact absurd (Network.name_of_tryMethod attempt)
            (candidate.skipped other m' (above other rfl) greater present)
  none unsolved := absurd solved (unsolved plan)

theorem not_accepts_of_child (first : n.firstCompound = .ok t)
    (candidate : d.NextFor t.name start choice m rest)
    (accepted : n.tryMethod t m supply = (some next, supply')) {v : Verdict}
    (child : v.Decides (setting.AcceptsFrom d limit (depth + 1) next supply' 0))
    (unsolved : ∀ plan, v ≠ .solved plan) (within : choices.length + (depth + 1) ≤ limit) :
    ¬ setting.Accepts d (choice :: choices) n supply plan := by
  rw [accepts_candidate first candidate, accepted]
  rintro ⟨_, _, ⟨⟩, accepts⟩
  exact child.none unsolved choices plan ⟨fun _ _ => Nat.zero_le _, within, accepts⟩

theorem attempt_candidate (templates : ∀ m ∈ d.methods, m.template.Valid)
    (first : n.firstCompound = .ok t) (before : n.IssuedBefore supply)
    (candidates : d.methodsFrom t.name start = m :: rest) {result : Option Network}
    (attempt : n.tryMethod t m supply = (result, supply')) :
    ∃ choice, d.NextFor t.name start choice m rest ∧ supply ≤ supply' ∧
      ∀ next, result = some next → next.IssuedBefore supply' := by
  obtain ⟨choice, candidate⟩ := Domain.methodsFrom_eq_cons candidates
  have template := templates m (List.mem_of_getElem? candidate.present)
  have member := (before.toWellFormed.firstCompound_eq_ok.mp first).1
  refine ⟨choice, candidate, Network.le_of_tryMethod attempt, ?_⟩
  rintro next rfl
  exact (before.tryMethod_eq_some template member attempt).2.1

section

variable (indexed : setting.index = .ofDomain d) (sorted : setting.sorter = TaskOrder.topological)
  (templates : ∀ m ∈ d.methods, m.template.Valid) (limited : setting.config.maxDepth = some limit)

include sorted templates

include indexed limited in
theorem decides_refused (before : n.IssuedBefore supply)
    (examination : setting.examine n depth stats = .failed failure) :
    (Verdict.refused failure).Decides (setting.AcceptsFrom d limit depth n supply 0) where
  complete failure := by simp
  first plan solved := by cases solved
  none _ choices plan := by
    rintro ⟨-, within, accepts⟩
    rcases examine_failed limited examination with unsolvable | ⟨primitive, error, gives⟩ | ⟨t, first, reached⟩
    · exact not_accepts_of_isUnsolvable indexed sorted templates before unsolvable accepts
    · cases choices with
      | nil =>
          rw [accepts_nil, gives] at accepts
          cases accepts.2
      | cons choice choices => exact not_accepts_cons primitive accepts
    · cases choices with
      | nil => exact not_accepts_nil first accepts
      | cons choice choices =>
          rw [List.length_cons] at within
          omega

theorem decides_skip (first : n.firstCompound = .ok t) (before : n.IssuedBefore supply)
    (le : supply ≤ supply') (candidate : d.NextFor t.name start choice m rest)
    (refused : ∀ choices plan, choices.length + (depth + 1) ≤ limit →
      ¬ setting.Accepts d (choice :: choices) n supply plan) {e : Exploration}
    (others : supply' ≤ e.supply ∧
      e.verdict.Decides (setting.AcceptsFrom d limit depth n supply' (choice + 1))) :
    supply ≤ e.supply ∧ e.verdict.Decides (setting.AcceptsFrom d limit depth n supply start) :=
  ⟨Supply.le_trans le others.1, others.2.congr fun _ _ =>
    acceptsFrom_skip sorted templates first before le candidate refused⟩

include indexed limited in
theorem explore_decides (unbounded : setting.config.nodeBudget = none) {calls : Nat} {e : Exploration}
    (found : setting.explore calls n depth stats supply = some e) :
    n.IssuedBefore supply → depth ≤ limit → supply ≤ e.supply ∧
      e.verdict.Decides (setting.AcceptsFrom d limit depth n supply 0) := by
  refine @explore_induction setting
    (fun n depth _ supply e => n.IssuedBefore supply → depth ≤ limit → supply ≤ e.supply ∧
      e.verdict.Decides (setting.AcceptsFrom d limit depth n supply 0))
    (fun n t depth candidates _ _ supply e => n.firstCompound = .ok t → n.IssuedBefore supply →
      depth < limit → ∀ start, d.methodsFrom t.name start = candidates → supply ≤ e.supply ∧
        e.verdict.Decides (setting.AcceptsFrom d limit depth n supply start))
    ?solved ?stopped ?refused ?opened ?exhausted ?rejected ?childRefused ?childExhausted ?childDecided
    calls n depth stats supply e found
  case solved =>
    intro n depth stats supply plan examination before le
    exact ⟨supply.le_refl, decides_solved examination le⟩
  case stopped =>
    intro n depth stats supply failure examination
    exact absurd examination (examine_not_stopped unbounded)
  case refused =>
    intro n depth stats supply failure examination before le
    exact ⟨supply.le_refl, decides_refused indexed sorted templates limited before examination⟩
  case opened =>
    intro n depth stats supply frame e examination ih before le
    obtain ⟨first, form⟩ := examine_opened examination
    refine ih first before (examine_opened_lt limited examination) 0 ?_
    rw [form, indexed, DomainIndex.methodsFor_ofDomain]
    rfl
  case exhausted =>
    intro n t depth last stats supply first before less start candidates
    exact ⟨supply.le_refl, by simp, by simp, fun _ _ _ => not_acceptsFrom_of_nil first candidates⟩
  case rejected =>
    intro n t depth m rest last stats supply supply' others attempt ih first before less start
      candidates
    obtain ⟨choice, candidate, le, -⟩ := attempt_candidate templates first before candidates attempt
    refine decides_skip sorted templates first before le candidate (fun choices plan _ => ?_)
      (ih first (before.mono le) less (choice + 1) candidate.later)
    rw [accepts_candidate first candidate, attempt]
    rintro ⟨_, _, ⟨⟩, -⟩
  case childRefused | childExhausted =>
    intro n t depth m rest last stats supply next supply' e failure others attempt child verdict ih
      first before less start candidates
    obtain ⟨choice, candidate, le, issued⟩ := attempt_candidate templates first before candidates attempt
    obtain ⟨leChild, decides⟩ := child (issued next rfl) less
    have le := Supply.le_trans le leChild
    exact decides_skip sorted templates first before le candidate
      (fun _ _ => not_accepts_of_child first candidate attempt decides (by simp [verdict]))
      (ih first (before.mono le) less (choice + 1) candidate.later)
  case childDecided =>
    intro n t depth m rest last stats supply next supply' e attempt child notRefused notExhausted
      first before less start candidates
    obtain ⟨choice, candidate, le, issued⟩ := attempt_candidate templates first before candidates attempt
    obtain ⟨leChild, decides⟩ := child (issued next rfl) less
    refine ⟨Supply.le_trans le leChild, ?_⟩
    rw [Exploration.after_verdict]
    cases verdict : e.verdict with
    | solved plan =>
        rw [verdict] at decides
        exact decides_first first candidate attempt decides rfl
    | stopped failure => exact absurd verdict (decides.complete failure)
    | refused failure => exact absurd verdict (notRefused failure)
    | exhausted failure => exact absurd verdict (notExhausted failure)

end

/-! ## The end of the search -/

theorem tryAll_ends {explore : Network → Stats → Supply → Option Exploration}
    (ends : ∀ next stats supply, ∃ e, explore next stats supply = some e) (candidates : List Method)
    (last : Option SearchFailure) (stats : Stats) (supply : Supply) :
    ∃ e, n.tryAll t explore candidates last stats supply = some e := by
  induction candidates generalizing last stats supply with
  | nil => exact ⟨_, rfl⟩
  | cons m rest ih =>
      rcases attempt : n.tryMethod t m supply with ⟨_ | next, supply'⟩
      · obtain ⟨others, found⟩ := ih last stats.backtracked supply'
        exact ⟨_, by rw [Network.tryAll_rejected attempt, found, Option.map_some]⟩
      · obtain ⟨e, child⟩ := ends next stats.decomposed supply'
        rw [Network.tryAll_accepted attempt child]
        cases e.verdict with
        | solved _ | stopped _ => exact ⟨_, rfl⟩
        | refused failure | exhausted failure =>
            exact (ih (some failure) _ e.supply).elim fun _ found => ⟨_, congrArg (Option.map _) found⟩

theorem explore_ends (limited : setting.config.maxDepth = some limit) (room : Nat)
    (enough : limit ≤ depth + room) (n : Network) (stats : Stats) (supply : Supply) :
    ∃ e, setting.explore (room + 1) n depth stats supply = some e := by
  induction room generalizing n depth stats supply with
  | zero =>
      rw [explore]
      cases examination : setting.examine n depth (stats.examined depth) with
      | opened frame => exact absurd (examine_opened_lt limited examination) (Nat.not_lt.mpr enough)
      | solved _ | stopped _ | failed _ => exact ⟨_, rfl⟩
  | succ room ih =>
      rw [explore]
      cases setting.examine n depth (stats.examined depth) with
      | opened frame => exact tryAll_ends (ih (by omega)) _ _ _ _
      | solved _ | stopped _ | failed _ => exact ⟨_, rfl⟩

theorem accepts_iff_of_issuedBefore (sorted : setting.sorter = TaskOrder.topological)
    (templates : ∀ m ∈ d.methods, m.template.Valid)
    (before : n.IssuedBefore supply) (before' : n.IssuedBefore supply') :
    setting.Accepts d choices n supply plan ↔ setting.Accepts d choices n supply' plan := by
  have upper : supply ≤ ⟨max supply.task supply'.task, max supply.scope supply'.scope⟩ ∧
      supply' ≤ ⟨max supply.task supply'.task, max supply.scope supply'.scope⟩ :=
    ⟨⟨Nat.le_max_left .., Nat.le_max_left ..⟩, ⟨Nat.le_max_right .., Nat.le_max_right ..⟩⟩
  rw [← accepts_alike sorted templates (before.alike upper.1),
    accepts_alike sorted templates (before'.alike upper.2)]

end Setting

section

variable {p : Problem} {d : Domain} {config : PlannerConfig} {limit : Nat} {supply source : Supply}
  {steps : Nat} {report : Report}

theorem findPlan_ends (p : Problem) (d : Domain) {sorter : Sorter} (supply : Supply)
    (limited : config.maxDepth = some limit) :
    ∃ steps report, p.findPlan d config sorter supply steps = some report := by
  have ended : (p.setting d config sorter).config.maxDepth = some limit := limited
  obtain ⟨e, found⟩ := Setting.explore_ends ended limit (by omega) p.network {} supply
  obtain ⟨steps, ran, -⟩ := Setting.run_iff_solve.mpr
    ⟨limit + 1, show Setting.solve _ _ _ _ = some (e.report, e.attempts) by rw [Setting.solve, found]; rfl⟩
  exact ⟨steps, e.report, ran⟩

theorem findPlan_decides (limited : config.maxDepth = some limit) (unbounded : config.nodeBudget = none)
    (templates : ∀ m ∈ d.methods, m.template.Valid) (before : p.network.IssuedBefore supply)
    (before' : p.network.IssuedBefore source)
    (found : p.findPlan d config TaskOrder.topological supply steps = some report) :
    ∃ v : Verdict, (∀ plan, report.result = .ok plan ↔ v = .solved plan) ∧
      v.Decides fun choices plan => choices.length ≤ limit ∧
        (p.setting d config TaskOrder.topological).Accepts d choices p.network source plan := by
  obtain ⟨calls, solves⟩ := Setting.run_iff_solve.mp ⟨steps, found, rfl⟩
  obtain ⟨e, explored, pair⟩ := Option.map_eq_some_iff.mp solves
  obtain ⟨rfl, -⟩ := Prod.mk.inj pair
  refine ⟨e.verdict, fun plan => Exploration.result_eq_ok, ?_⟩
  refine (Setting.explore_decides rfl rfl templates limited unbounded explored before
    (Nat.zero_le _)).2.congr fun choices plan => ?_
  rw [Setting.AcceptsFrom, Setting.accepts_iff_of_issuedBefore rfl templates before before']
  exact ⟨fun ⟨within, accepts⟩ => ⟨fun _ _ => Nat.zero_le _, within, accepts⟩,
    fun ⟨_, within, accepts⟩ => ⟨within, accepts⟩⟩

end

/-- With a limit on the depth and no other one, the search ends. It finds a plan exactly when some
derivation within the limit has one, from whatever supply it starts, and the plan found is that of
the first such derivation, methods being compared by their place in the domain. A larger limit never
loses a plan. -/
theorem findPlan_complete {p : Problem} {d : Domain} {config : PlannerConfig} {limit : Nat}
    {supply source : Supply} (limited : config.maxDepth = some limit)
    (unbounded : config.nodeBudget = none) (templates : ∀ m ∈ d.methods, m.template.Valid)
    (before : p.network.IssuedBefore supply) (before' : p.network.IssuedBefore source) :
    let setting := p.setting d config TaskOrder.topological
    (∃ steps report, p.findPlan d config TaskOrder.topological supply steps = some report) ∧
    ∀ steps report, p.findPlan d config TaskOrder.topological supply steps = some report →
      ((∃ plan, report.result = .ok plan) ↔ ∃ choices plan, choices.length ≤ limit ∧
        setting.Accepts d choices p.network source plan) ∧
      (∀ plan, report.result = .ok plan → ∃ choices, choices.length ≤ limit ∧
        setting.Accepts d choices p.network source plan ∧
        ∀ other plan', other.length ≤ limit → setting.Accepts d other p.network source plan' →
          choices = other ∨ List.Lex (· < ·) choices other) ∧
      ((∃ plan, report.result = .ok plan) → ∀ more ≥ limit, ∃ steps' report',
        p.findPlan d { config with maxDepth := some more } TaskOrder.topological supply steps' =
            some report' ∧
          ∃ plan, report'.result = .ok plan) := by
  refine ⟨findPlan_ends p d supply limited, fun steps report found => ?_⟩
  obtain ⟨v, result, decides⟩ :=
    findPlan_decides limited unbounded templates before before' found
  refine ⟨⟨?_, ?_⟩, ?_, ?_⟩
  · rintro ⟨plan, solved⟩
    obtain ⟨choices, ⟨within, accepts⟩, -⟩ := decides.first plan ((result plan).mp solved)
    exact ⟨choices, plan, within, accepts⟩
  · rintro ⟨choices, plan, accepted⟩
    by_contra none
    exact decides.none (fun plan solved => none ⟨plan, (result plan).mpr solved⟩) choices plan accepted
  · intro plan solved
    obtain ⟨choices, ⟨within, accepts⟩, least⟩ := decides.first plan ((result plan).mp solved)
    exact ⟨choices, within, accepts, fun other plan' le accepts => least other plan' ⟨le, accepts⟩⟩
  · rintro ⟨plan, solved⟩ more le
    obtain ⟨choices, ⟨within, accepts⟩, -⟩ := decides.first plan ((result plan).mp solved)
    let deeper : PlannerConfig := { config with maxDepth := some more }
    have limited' : deeper.maxDepth = some more := rfl
    obtain ⟨steps', report', found'⟩ := findPlan_ends p d supply limited'
    obtain ⟨v', result', decides'⟩ :=
      findPlan_decides limited' unbounded templates before before' found'
    refine ⟨steps', report', found', ?_⟩
    by_contra none
    exact decides'.none (fun plan solved => none ⟨plan, (result' plan).mpr solved⟩) choices plan
      ⟨Nat.le_trans within le, accepts⟩

theorem findPlan_complete_spin :
    let domain := (Spin.domain ⟨1, 1⟩).1
    let problem := (Spin.problem (Spin.domain ⟨1, 1⟩).2).1
    let supply := (Spin.problem (Spin.domain ⟨1, 1⟩).2).2
    let config : PlannerConfig := { maxDepth := some 3 }
    let setting := problem.setting domain config TaskOrder.topological
    (∀ m ∈ domain.methods, m.template.Valid) ∧ problem.network.IssuedBefore supply ∧
      ∃ report plan, problem.findPlan domain config TaskOrder.topological supply 6 = some report ∧
        report.result = .ok plan ∧
        ∃ choices, choices.length ≤ 3 ∧ setting.Accepts domain choices problem.network supply plan ∧
          ∀ other plan', other.length ≤ 3 →
            setting.Accepts domain other problem.network supply plan' →
              choices = other ∨ List.Lex (· < ·) choices other := by
  intro domain problem supply config setting
  have templates : ∀ m ∈ domain.methods, m.template.Valid := Spin.valid_templates
  have before : problem.network.IssuedBefore supply :=
    ⟨(NetworkBuilder.valid_ofTasks _).build, by decide, by decide⟩
  have ends : ((problem.findPlan domain config TaskOrder.topological supply 6).any fun report =>
      report.result.isOk) = true := by
    decide +kernel
  cases found : problem.findPlan domain config TaskOrder.topological supply 6 with
  | none =>
      rw [found] at ends
      cases ends
  | some report =>
      cases solved : report.result with
      | error failure => simp [found, solved, Except.isOk, Except.toBool] at ends
      | ok plan =>
          have limited : config.maxDepth = some 3 := rfl
          obtain ⟨-, reports⟩ := findPlan_complete limited rfl templates before before
          obtain ⟨-, first, -⟩ := reports 6 report found
          exact ⟨templates, before, report, plan, rfl, solved, first plan solved⟩

end HtnPlanning
