import HtnPlanning.Proofs.Search.Examination
import HtnPlanning.Proofs.Search.Recursion

namespace HtnPlanning

namespace Search

def attempt? (search : Search) : Option Attempt :=
  match search.stack with
  | [] => none
  | top :: _ => top.candidates.head?.map fun m => ⟨top.network, top.task, m, search.supply⟩

def attempts (setting : Setting) : Nat → Progress → List Attempt
  | 0, _ => []
  | _ + 1, .finished _ => []
  | steps + 1, .running search =>
    search.attempt?.toList ++ attempts setting steps (search.step setting)

def advance [Counters] (setting : Setting) : Nat → Progress → Progress
  | 0, p => p
  | _ + 1, .finished report => .finished report
  | steps + 1, .running search => advance setting steps (search.step setting)

theorem run_eq_some_iff [Counters] {setting : Setting} {steps : Nat} {p : Progress} {report : Report} :
    run setting steps p = some report ↔ advance setting steps p = .finished report := by
  induction steps generalizing p with
  | zero => cases p <;> simp [run, advance]
  | succ steps ih =>
      cases p with
      | running search => exact ih
      | finished report' => simp [run, advance]

inductive Leads (setting : Setting) : Progress → List Attempt → Progress → Prop where
  | refl (p : Progress) : Leads setting p [] p
  | step {search : Search} {log : List Attempt} {p : Progress}
      (rest : Leads setting (search.step setting) log p) :
      Leads setting (.running search) (search.attempt?.toList ++ log) p

namespace Leads

variable {setting : Setting} {p q r : Progress} {log log' : List Attempt} {report : Report}

theorem trans (first : Leads setting p log q) (second : Leads setting q log' r) :
    Leads setting p (log ++ log') r := by
  induction first with
  | refl => exact second
  | step _ ih => exact List.append_assoc .. ▸ .step (ih second)

theorem attempt {search : Search} {attempt : Attempt} (tries : search.attempt? = some attempt)
    (rest : Leads setting (search.step setting) log p) :
    Leads setting (.running search) (attempt :: log) p := by
  have := Leads.step rest
  rwa [tries] at this

theorem finished_eq {report' : Report} (first : Leads setting p log (.finished report))
    (second : Leads setting p log' (.finished report')) : report = report' ∧ log = log' := by
  generalize goal : Progress.finished report = q at first
  induction first generalizing log' with
  | refl =>
      cases goal
      cases second
      exact ⟨rfl, rfl⟩
  | step _ ih =>
      cases second with
      | step rest =>
          obtain ⟨same, sameLog⟩ := ih rest goal
          exact ⟨same, by rw [sameLog]⟩

theorem run_eq (leads : Leads setting p log (.finished report)) :
    ∃ steps, run setting steps p = some report ∧ attempts setting steps p = log := by
  generalize goal : Progress.finished report = q at leads
  induction leads with
  | refl => exact ⟨0, by simp [← goal, run], by simp [attempts]⟩
  | step _ ih =>
      obtain ⟨steps, ended, made⟩ := ih goal
      exact ⟨steps + 1, by simpa [run] using ended, by simp [attempts, made]⟩

theorem run_rest (leads : Leads setting p log q) {steps : Nat}
    (ended : run setting steps p = some report) :
    ∃ fewer ≤ steps, run setting fewer q = some report := by
  induction leads generalizing steps with
  | refl => exact ⟨steps, Nat.le_refl _, ended⟩
  | step _ ih =>
      cases steps with
      | zero => simp [run] at ended
      | succ steps =>
          obtain ⟨fewer, le, rest⟩ := ih (by simpa [run] using ended)
          exact ⟨fewer, Nat.le_succ_of_le le, rest⟩

end Leads

theorem leads_advance (setting : Setting) (steps : Nat) (p : Progress) :
    Leads setting p (attempts setting steps p) (advance setting steps p) := by
  induction steps generalizing p with
  | zero => exact .refl p
  | succ steps ih =>
      cases p with
      | running search => exact .step (ih _)
      | finished report => exact .refl _

theorem leads_of_run {setting : Setting} {steps : Nat} {p : Progress} {report : Report}
    (ended : run setting steps p = some report) :
    Leads setting p (attempts setting steps p) (.finished report) :=
  run_eq_some_iff.mp ended ▸ leads_advance setting steps p

/-- How a search goes on when what lies above a stack was explored. -/
def resume (root : Task) (stack : List Frame) (e : Exploration) : Progress :=
  match stack with
  | [] => .finished e.report
  | parent :: rest =>
    match e.verdict with
    | .refused failure =>
      .running
        { root
          stack := { parent with failure := some failure } :: rest
          stats := e.stats.backtracked
          supply := e.supply }
    | .exhausted failure =>
      .running
        { root
          stack := { parent with failure := some failure } :: rest
          stats := e.stats
          supply := e.supply }
    | _ => .finished e.report

@[simp] theorem resume_after (root : Task) (stack : List Frame) (e : Exploration)
    (log : List Attempt) : resume root stack (e.after log) = resume root stack e := by
  cases stack <;> rfl

theorem resume_decided {e : Exploration} (root : Task) (stack : List Frame)
    (notRefused : ∀ failure, e.verdict ≠ .refused failure)
    (notExhausted : ∀ failure, e.verdict ≠ .exhausted failure) :
    resume root stack e = .finished e.report := by
  cases stack with
  | nil => rfl
  | cons parent rest =>
      cases verdict : e.verdict with
      | solved plan => simp [resume, verdict]
      | stopped failure => simp [resume, verdict]
      | refused failure => exact absurd verdict (notRefused failure)
      | exhausted failure => exact absurd verdict (notExhausted failure)

def arrive (setting : Setting) (root : Task) (stack : List Frame) (n : Network) (depth : Nat)
    (stats : Stats) (supply : Supply) : Progress :=
  let stats := stats.examined depth
  match setting.examine n depth stats with
  | .solved plan => .finished { result := .ok plan, stats, supply }
  | .stopped failure => .finished { result := .error failure, stats, supply }
  | .failed failure => resume root stack { verdict := .refused failure, stats, supply }
  | .opened frame => .running { root, stack := frame :: stack, stats, supply }

theorem enter_eq_arrive (setting : Setting) (search : Search) (parent : Frame) (below : List Frame)
    (n : Network) (supply : Supply) :
    search.enter setting parent below n supply =
      arrive setting search.root (parent :: below) n (parent.depth + 1) search.stats.decomposed
        supply := by
  simp only [enter, arrive]
  cases setting.examine n (parent.depth + 1)
    (search.stats.decomposed.examined (parent.depth + 1)) <;> rfl

section

variable {setting : Setting} {search : Search} {top : Frame} {below : List Frame} {m : Method}
  {rest : List Method} {n : Network} {supply : Supply}

theorem step_of_empty [Counters] (empty : search.stack = []) : search.step setting =
    .finished ⟨.error (.methodsExhausted search.root.call), search.stats, search.supply⟩ := by
  simp only [step, empty]

variable (stack : search.stack = top :: below)

include stack

theorem step_of_spent [Counters] (spent : top.candidates = []) :
    search.step setting = search.pop top below := by
  simp only [step, stack, spent]

theorem step_of_rejected [Counters] (candidates : top.candidates = m :: rest)
    (rejected : top.network.tryMethod top.task m search.supply = (none, supply)) :
    search.step setting = .running
      ⟨search.root, { top with candidates := rest } :: below, search.stats.backtracked, supply⟩ := by
  simp only [step, stack, candidates, rejected, skip]

theorem step_of_accepted [Counters] (candidates : top.candidates = m :: rest)
    (accepted : top.network.tryMethod top.task m search.supply = (some n, supply)) :
    search.step setting = arrive setting search.root ({ top with candidates := rest } :: below) n
      (top.depth + 1) search.stats.decomposed supply := by
  simp only [step, stack, candidates, accepted, enter_eq_arrive]

end

/-- Everything that a step can do: it ends the search, gives up a frame, gives up a method, or comes
to a network. -/
inductive Turn [Counters] (search : Search) : Prop where
  | ended (empty : search.stack = []) (steps : ∀ setting, search.step setting =
      .finished ⟨.error (.methodsExhausted search.root.call), search.stats, search.supply⟩)
  | gaveUp (top : Frame) (below : List Frame) (stack : search.stack = top :: below)
      (spent : top.candidates = []) (steps : ∀ setting, search.step setting = search.pop top below)
  | skipped (top : Frame) (below : List Frame) (m : Method) (rest : List Method) (supply : Supply)
      (stack : search.stack = top :: below) (candidates : top.candidates = m :: rest)
      (rejected : top.network.tryMethod top.task m search.supply = (none, supply))
      (steps : ∀ setting, search.step setting = .running
        ⟨search.root, { top with candidates := rest } :: below, search.stats.backtracked, supply⟩)
  | entered (top : Frame) (below : List Frame) (m : Method) (rest : List Method) (n : Network)
      (supply : Supply) (stack : search.stack = top :: below) (candidates : top.candidates = m :: rest)
      (accepted : top.network.tryMethod top.task m search.supply = (some n, supply))
      (steps : ∀ setting, search.step setting =
        arrive setting search.root ({ top with candidates := rest } :: below) n (top.depth + 1)
          search.stats.decomposed supply)

theorem turn [Counters] (search : Search) : search.Turn := by
  cases stack : search.stack with
  | nil => exact .ended stack fun _ => step_of_empty stack
  | cons top below =>
      cases candidates : top.candidates with
      | nil => exact .gaveUp top below stack candidates fun _ => step_of_spent stack candidates
      | cons m rest =>
          rcases attempt : top.network.tryMethod top.task m search.supply with ⟨_ | n, supply⟩
          · exact .skipped top below m rest supply stack candidates attempt fun _ =>
              step_of_rejected stack candidates attempt
          · exact .entered top below m rest n supply stack candidates attempt fun _ =>
              step_of_accepted stack candidates attempt

end Search

namespace Setting
open Search

variable {setting : Setting}

theorem explore_opened {calls : Nat} {n : Network} {depth : Nat} {stats : Stats} {supply : Supply}
    {frame : Frame} {e : Exploration}
    (opened : setting.examine n depth (stats.examined depth) = .opened frame)
    (found : n.tryAll frame.task (fun next => setting.explore calls next (depth + 1))
      (setting.index.methodsFor frame.task) none (stats.examined depth) supply = some e) :
    setting.explore (calls + 1) n depth stats supply = some e := by
  have candidates : frame.candidates = setting.index.methodsFor frame.task := by
    rw [(examine_opened opened).2]
  simp only [explore, opened, candidates, found]

theorem start_eq_arrive (n : Network) (supply : Supply) :
    ∃ root, ∀ setting : Setting, setting.start n supply = arrive setting root [] n 0 {} supply := by
  refine ⟨n.firstCompound.toOption.getD default, fun setting => ?_⟩
  cases examination : setting.examine n 0 (({} : Stats).examined 0) with
  | opened frame =>
      simp only [start, arrive, examination, (examine_opened examination).1]
      rfl
  | solved _ | stopped _ => simp only [start, arrive, examination]
  | failed _ =>
      simp only [start, arrive, examination]
      rfl

theorem leads_resume {calls : Nat} {n : Network} {depth : Nat} {stats : Stats} {supply : Supply}
    {e : Exploration} (found : setting.explore calls n depth stats supply = some e) :
    ∀ root stack, Leads setting (arrive setting root stack n depth stats supply) e.attempts
      (resume root stack e) := by
  refine @explore_induction setting
    (fun n depth stats supply e => ∀ root stack,
      Leads setting (arrive setting root stack n depth stats supply) e.attempts (resume root stack e))
    (fun n t depth candidates last stats supply e => ∀ root below, Leads setting
      (.running { root, stack := ⟨n, t, candidates, depth, last⟩ :: below, stats, supply })
      e.attempts (resume root below e))
    ?solved ?stopped ?refused ?opened ?exhausted ?rejected ?childRefused ?childExhausted ?childDecided
    calls n depth stats supply e found
  case solved =>
    intro n depth stats supply plan examination root stack
    rw [resume_decided _ _ (by simp) (by simp)]
    simp only [arrive, examination]
    exact .refl _
  case stopped =>
    intro n depth stats supply failure examination root stack
    rw [resume_decided _ _ (by simp) (by simp)]
    simp only [arrive, examination]
    exact .refl _
  case refused =>
    intro n depth stats supply failure examination root stack
    simp only [arrive, examination]
    exact .refl _
  case opened =>
    intro n depth stats supply frame e examination ih root stack
    have form := (examine_opened examination).2
    simp only [arrive, examination]
    have leads := ih root stack
    rwa [show (⟨n, frame.task, frame.candidates, depth, none⟩ : Frame) = frame by rw [form]] at leads
  case exhausted =>
    intro n t depth last stats supply root below
    cases below <;> exact .step (.refl _)
  case rejected =>
    intro n t depth m rest last stats supply supply' others attempt ih root below
    rw [resume_after, Exploration.after_attempts, List.singleton_append]
    refine .attempt rfl ?_
    simpa only [step, attempt, skip] using ih root below
  case childRefused | childExhausted =>
    intro n t depth m rest last stats supply next supply' e failure others attempt child verdict ih
      root below
    rw [resume_after]
    refine .attempt rfl ?_
    simp only [step, attempt, enter_eq_arrive]
    refine (child root _).trans ?_
    simpa only [resume, verdict] using ih root below
  case childDecided =>
    intro n t depth m rest last stats supply next supply' e attempt child notRefused notExhausted
      root below
    rw [resume_after, Exploration.after_attempts, List.singleton_append,
      resume_decided _ _ notRefused notExhausted]
    refine .attempt rfl ?_
    simp only [step, attempt, enter_eq_arrive]
    simpa only [resume_decided root _ notRefused notExhausted] using child root _

theorem explore_of_arrive {steps : Nat} {root : Task} {stack : List Frame} {n : Network}
    {depth : Nat} {stats : Stats} {supply : Supply} {report : Report}
    (ended : run setting steps (arrive setting root stack n depth stats supply) = some report)
    (opened : ∀ frame : Frame, run setting steps
      (.running
        { root
          stack := ⟨n, frame.task, setting.index.methodsFor frame.task, depth, none⟩ :: stack
          stats := stats.examined depth
          supply }) = some report →
      ∃ calls e, n.tryAll frame.task (fun next => setting.explore calls next (depth + 1))
        (setting.index.methodsFor frame.task) none (stats.examined depth) supply = some e) :
    ∃ calls e, setting.explore calls n depth stats supply = some e := by
  cases examination : setting.examine n depth (stats.examined depth) with
  | opened frame =>
      simp only [arrive, examination] at ended
      rw [(examine_opened examination).2] at ended
      obtain ⟨calls, e, found⟩ := opened frame ended
      exact ⟨calls + 1, e, explore_opened examination found⟩
  | solved _ | stopped _ | failed _ => exact ⟨1, _, by simp only [explore, examination]; rfl⟩

theorem tryAll_of_run (setting : Setting) (steps : Nat) (root : Task) (n : Network) (t : Task)
    (depth : Nat) (candidates : List Method) (last : Option SearchFailure) (below : List Frame)
    (stats : Stats) (supply : Supply) (report : Report)
    (ended : run setting steps
      (.running { root, stack := ⟨n, t, candidates, depth, last⟩ :: below, stats, supply }) =
        some report) :
    ∃ calls e, n.tryAll t (fun next => setting.explore calls next (depth + 1)) candidates last stats
      supply = some e := by
  induction steps using Nat.strongRecOn
    generalizing root n t depth candidates last below stats supply with
  | _ steps ih =>
      cases steps with
      | zero => simp [run] at ended
      | succ steps =>
          cases candidates with
          | nil => exact ⟨0, _, rfl⟩
          | cons m rest =>
              rcases attempt : n.tryMethod t m supply with ⟨_ | next, supply'⟩
              · simp only [run, step, attempt, skip] at ended
                obtain ⟨calls, e, found⟩ := ih steps (Nat.lt_succ_self _) _ _ _ _ _ _ _ _ _ ended
                exact ⟨calls, _, by rw [Network.tryAll_rejected attempt, found]; rfl⟩
              · simp only [run, step, attempt, enter_eq_arrive] at ended
                obtain ⟨calls, e, found⟩ := explore_of_arrive ended fun frame ended =>
                  ih steps (Nat.lt_succ_self _) _ _ _ _ _ _ _ _ _ ended
                obtain ⟨fewer, le, ended⟩ := (leads_resume found root _).run_rest ended
                cases verdict : e.verdict with
                | solved _ | stopped _ =>
                    exact ⟨calls, _, by rw [Network.tryAll_accepted attempt found]; simp only [verdict]; rfl⟩
                | refused failure | exhausted failure =>
                    simp only [resume, verdict] at ended
                    obtain ⟨deeper, others, rest⟩ :=
                      ih fewer (Nat.lt_succ_of_le le) _ _ _ _ _ _ _ _ _ ended
                    refine ⟨max calls deeper, others.after (⟨n, t, m, supply⟩ :: e.attempts), ?_⟩
                    rw [Network.tryAll_accepted attempt (explore_mono (Nat.le_max_left ..) found)]
                    simp only [verdict, Network.tryAll_mono
                      (fun _ _ _ _ => explore_mono (Nat.le_max_right calls deeper)) rest, Option.map_some]

theorem explore_of_run {steps : Nat} {n : Network} {supply : Supply} {report : Report}
    (ended : run setting steps (setting.start n supply) = some report) :
    ∃ calls e, setting.explore calls n 0 {} supply = some e := by
  obtain ⟨root, start⟩ := start_eq_arrive n supply
  rw [start] at ended
  exact explore_of_arrive ended fun frame ended =>
    tryAll_of_run setting steps _ _ _ _ _ _ _ _ _ _ ended

theorem run_iff_solve {n : Network} {supply : Supply} {report : Report} {log : List Attempt} :
    (∃ steps, run setting steps (setting.start n supply) = some report ∧
        attempts setting steps (setting.start n supply) = log) ↔
      ∃ calls, setting.solve calls n supply = some (report, log) := by
  have leads {calls : Nat} {e : Exploration} (found : setting.explore calls n 0 {} supply = some e) :
      Leads setting (setting.start n supply) e.attempts (.finished e.report) := by
    obtain ⟨root, start⟩ := start_eq_arrive n supply
    rw [start]
    exact leads_resume found root []
  constructor
  · rintro ⟨steps, ended, rfl⟩
    obtain ⟨calls, e, found⟩ := explore_of_run ended
    obtain ⟨same, sameLog⟩ := (leads found).finished_eq (leads_of_run ended)
    exact ⟨calls, Option.map_eq_some_iff.mpr ⟨e, found, by rw [same, sameLog]⟩⟩
  · rintro ⟨calls, solved⟩
    obtain ⟨e, found, pair⟩ := Option.map_eq_some_iff.mp solved
    cases pair
    exact (leads found).run_eq

end Setting

/-! ## A search under way always has a frame -/

namespace Search

variable {setting : Setting} {search next : Search}

theorem step_nonempty (nonempty : search.stack ≠ []) (running : search.step setting = .running next) :
    next.stack ≠ [] := by
  cases search.turn with
  | ended empty => exact absurd empty nonempty
  | gaveUp top below stack spent steps =>
      rw [steps] at running
      cases below with
      | nil => cases running
      | cons parent rest =>
          cases running
          exact List.cons_ne_nil _ _
  | skipped top below m rest supply stack candidates rejected steps =>
      rw [steps] at running
      cases running
      exact List.cons_ne_nil _ _
  | entered top below m rest n supply stack candidates accepted steps =>
      rw [steps, arrive] at running
      split at running <;> cases running <;> exact List.cons_ne_nil _ _

theorem start_nonempty {n : Network} {supply : Supply}
    (running : setting.start n supply = .running search) : search.stack ≠ [] := by
  simp only [Setting.start] at running
  split at running <;> cases running
  exact List.cons_ne_nil _ _

theorem Leads.nonempty {p : Progress} {log : List Attempt}
    (leads : Leads setting p log (.running search))
    (first : ∀ search, p = .running search → search.stack ≠ []) : search.stack ≠ [] := by
  generalize goal : Progress.running search = q at leads
  induction leads with
  | refl p => exact first search goal.symm
  | step _ ih => exact ih (fun next running => step_nonempty (first _ rfl) running) goal

end Search

/-- The search over a stack of frames is the recursion: it ends exactly when the recursion does, with
the same report, after the same attempts from the same supplies. It never comes to an empty stack. What both
of them find at a network is `Setting.examine_in_order`. -/
theorem search_eq_recursion (p : Problem) (d : Domain) (config : PlannerConfig) (sorter : Sorter)
    (supply : Supply) :
    let setting := p.setting d config sorter
    let start := setting.start p.network supply
    (∀ report log,
      (∃ steps, p.findPlan d config sorter supply steps = some report ∧
        Search.attempts setting steps start = log) ↔
      ∃ calls, setting.solve calls p.network supply = some (report, log)) ∧
    ∀ log search, Search.Leads setting start log (.running search) → search.stack ≠ [] := by
  intro setting start
  constructor
  · intro report log
    exact Setting.run_iff_solve
  · intro log search leads
    exact leads.nonempty fun next running => Search.start_nonempty running

end HtnPlanning
