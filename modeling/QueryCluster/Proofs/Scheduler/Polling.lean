import QueryCluster.Proofs.Scheduler.Results

/-!
# What a poll decides

A poll takes the dispatched tasks one after the other. It asks the executors of a task in the order of its
plan until one of them speaks against the task; if all confirm that they are done with it, the executor of the
root is asked for the rows. Only then is the task filed, if it still runs: what others did in the meantime is
not undone. So each task is judged by what its own executors say, and filing it touches no other.
-/
namespace QueryCluster

abbrev Reports := List (Location × Except RpcError StatusReport)

/-- An executor says that it is done with this very task. -/
def Confirms (task : TaskId) (answer : Except RpcError StatusReport) : Prop :=
  ∃ report, answer = .ok report ∧ report.task = some task ∧ report.state = .done

/-- An executor cannot be reached, holds another task or none, or has failed. -/
inductive SpeaksAgainst (task : TaskId) (l : Location) : Except RpcError StatusReport → TaskFault → Prop
  | unreachable (e : RpcError) : SpeaksAgainst task l (.error e) (.unreachable l.name e)
  | lost {report : StatusReport} (h : report.task ≠ some task) :
      SpeaksAgainst task l (.ok report) (.lost l.name task report)
  | failed {report : StatusReport} (htask : report.task = some task) (hstate : report.state = .failed) :
      SpeaksAgainst task l (.ok report) (.failed l.name report.error)

namespace Reports

/-- Nobody speaks against the task. -/
def Quiet (task : TaskId) (reports : Reports) : Prop :=
  ∀ x ∈ reports, ∀ fault, ¬SpeaksAgainst task x.1 x.2 fault

/-- All executors confirm that they are done with the task. -/
def Confirmed (task : TaskId) (plan : List Location) (reports : Reports) : Prop :=
  reports.map (·.1) = plan ∧ ∀ x ∈ reports, Confirms task x.2

/-- The last that was asked is the first that speaks against the task. -/
def Denied (task : TaskId) (reports : Reports) (fault : TaskFault) : Prop :=
  ∃ front l answer, reports = front ++ [(l, answer)] ∧ Quiet task front ∧ SpeaksAgainst task l answer fault

end Reports

open Reports (Quiet Confirmed Denied)

section Answers

variable {task : TaskId} {l : Location} {answer : Except RpcError StatusReport} {reports : Reports}
  {plan : List Location} {fault fault' : TaskFault}

theorem Confirms.not_against (h : Confirms task answer) : ¬SpeaksAgainst task l answer fault := by
  obtain ⟨report, rfl, htask, hstate⟩ := h
  rintro (_ | hlost | ⟨_, hfailed⟩)
  · exact hlost htask
  · rw [hstate] at hfailed
    cases hfailed

theorem SpeaksAgainst.unique (h : SpeaksAgainst task l answer fault)
    (h' : SpeaksAgainst task l answer fault') : fault = fault' := by
  cases h with
  | unreachable => cases h'; rfl
  | lost hlost =>
    cases h' with
    | lost => rfl
    | failed htask => exact absurd htask hlost
  | failed htask =>
    cases h' with
    | lost hlost => exact absurd htask hlost
    | failed => rfl

theorem ofAnswer_cases (task : TaskId) (l : Location) (answer : Except RpcError StatusReport) :
    (Verdict.ofAnswer task l.name answer = .done ∧ Confirms task answer) ∨
      (Verdict.ofAnswer task l.name answer = .running ∧ ¬Confirms task answer ∧
        ∀ fault, ¬SpeaksAgainst task l answer fault) ∨
      ∃ fault, Verdict.ofAnswer task l.name answer = .failed fault ∧
        SpeaksAgainst task l answer fault := by
  cases answer with
  | error e => exact .inr (.inr ⟨_, rfl, .unreachable e⟩)
  | ok report =>
    by_cases htask : report.task = some task
    · rw [Verdict.ofAnswer, if_neg (not_not.mpr htask)]
      split
      · rename_i hstate
        exact .inl ⟨rfl, report, rfl, htask, hstate⟩
      · rename_i hstate
        exact .inr (.inr ⟨_, rfl, .failed htask hstate⟩)
      · rename_i hdone hfailed
        refine .inr (.inl ⟨rfl, ?_, ?_⟩)
        · rintro ⟨_, ⟨⟩, _, hstate⟩
          exact hdone hstate
        · rintro fault (_ | hlost | ⟨_, hstate⟩)
          · exact hlost htask
          · exact hfailed hstate
    · rw [Verdict.ofAnswer, if_pos htask]
      exact .inr (.inr ⟨_, rfl, .lost htask⟩)

theorem Reports.Confirmed.quiet (h : Confirmed task plan reports) : Quiet task reports :=
  fun x hx _ => (h.2 x hx).not_against

theorem Reports.Denied.not_quiet (h : Denied task reports fault) : ¬Quiet task reports := by
  obtain ⟨front, l, answer, rfl, _, hagainst⟩ := h
  exact fun hquiet => hquiet (l, answer) (List.mem_append_right _ (List.mem_singleton_self _)) fault hagainst

theorem Reports.Denied.unique (h : Denied task reports fault) (h' : Denied task reports fault') :
    fault = fault' := by
  obtain ⟨front, l, answer, rfl, _, hagainst⟩ := h
  obtain ⟨front', l', answer', heq, _, hagainst'⟩ := h'
  obtain ⟨_, hlast⟩ := List.append_inj' heq rfl
  cases hlast
  exact hagainst.unique hagainst'

end Answers

/-! ## Asking the executors -/

/-- Executors are asked for their status, one after the other. -/
inductive Asked {ω : Type} (c : Client ω) : ω → Reports → ω → Prop
  | nil {w : ω} : Asked c w [] w
  | cons {l : Location} {answer : Except RpcError StatusReport} {reports : Reports} {w w' w'' : ω}
      (h : c.status l w = (answer, w')) (hs : Asked c w' reports w'') : Asked c w ((l, answer) :: reports) w''

/-- What comes of asking: somebody speaks against the task and nobody is asked after that, or all are asked. -/
structure Heard (task : TaskId) (plan : List Location) (reports : Reports) (verdict verdict' : Verdict) :
    Prop where
  planned : reports.map (·.1) <+: plan
  outcome : (∃ fault, Denied task reports fault ∧ verdict' = .failed fault) ∨
    (Quiet task reports ∧ reports.map (·.1) = plan ∧
      ((∀ x ∈ reports, Confirms task x.2) ∧ verdict' = verdict ∨
        (¬∀ x ∈ reports, Confirms task x.2) ∧ verdict' = .running))

variable {κ : Type} {c : Client (World κ)} {task : TaskId}

theorem Heard.cons {l : Location} {answer : Except RpcError StatusReport} {plan : List Location}
    {reports : Reports} {verdict verdict' : Verdict}
    (hquiet : ∀ fault, ¬SpeaksAgainst task l answer fault)
    (hverdict : Confirms task answer ∧ verdict' = verdict ∨ ¬Confirms task answer ∧ verdict' = .running)
    {final : Verdict} (h : Heard task plan reports verdict' final) :
    Heard task (l :: plan) ((l, answer) :: reports) verdict final where
  planned := List.cons_prefix_cons.mpr ⟨rfl, h.planned⟩
  outcome := by
    have hforall : (∀ x ∈ (l, answer) :: reports, Confirms task x.2) ↔
        Confirms task answer ∧ ∀ x ∈ reports, Confirms task x.2 := List.forall_mem_cons
    rcases h.outcome with ⟨fault, ⟨front, m, last, rfl, hfront, hagainst⟩, hfinal⟩ | ⟨hrest, hplan, hfinal⟩
    · exact .inl ⟨fault, ⟨(l, answer) :: front, m, last, rfl,
        List.forall_mem_cons.mpr ⟨hquiet, hfront⟩, hagainst⟩, hfinal⟩
    · refine .inr ⟨List.forall_mem_cons.mpr ⟨hquiet, hrest⟩, congrArg (l :: ·) hplan, ?_⟩
      rw [hforall]
      rcases hverdict with ⟨hconfirms, rfl⟩ | ⟨hnot, rfl⟩
      · simpa only [hconfirms, true_and] using hfinal
      · refine .inr ⟨fun hall => hnot hall.1, ?_⟩
        exact hfinal.elim And.right And.right

theorem World.askAll_heard (c : Client (World κ)) (task : TaskId) (verdict : Verdict)
    (ls : List Location) (w : World κ) : ∃ reports,
      Asked c w reports (askAll c task verdict ls w).2 ∧
        Heard task ls reports verdict (askAll c task verdict ls w).1 := by
  induction ls generalizing verdict w with
  | nil =>
    exact ⟨[], .nil, List.prefix_rfl, .inr ⟨nofun, rfl, .inl ⟨nofun, rfl⟩⟩⟩
  | cons l ls ih =>
    rcases hcall : c.status l w with ⟨answer, w'⟩
    rw [askAll, hcall]
    dsimp only
    rcases ofAnswer_cases task l answer with ⟨hof, hconfirms⟩ | ⟨hof, hnot, hquiet⟩ | ⟨fault, hof, hagainst⟩
    · obtain ⟨reports, hasked, hheard⟩ := ih verdict w'
      rw [hof]
      exact ⟨(l, answer) :: reports, .cons hcall hasked,
        hheard.cons (fun _ => hconfirms.not_against) (.inl ⟨hconfirms, rfl⟩)⟩
    · -- the task keeps running, unless an executor behind this one speaks against it
      obtain ⟨reports, hasked, hheard⟩ := ih .running w'
      rw [hof]
      exact ⟨(l, answer) :: reports, .cons hcall hasked, hheard.cons hquiet (.inr ⟨hnot, rfl⟩)⟩
    · rw [hof]
      refine ⟨[(l, answer)], .cons hcall .nil, ⟨ls, rfl⟩, .inl ⟨fault, ?_, rfl⟩⟩
      exact ⟨[], l, answer, rfl, nofun, hagainst⟩

/-! ## Filing a task -/

inductive Fate where
  | stays
  | done (rows : Split)
  | failed (fault : TaskFault)
  deriving DecidableEq

namespace SchedulerState

/-- A running task is done: its rows are stored and its executors are free. -/
def withDone (s : SchedulerState) (t : Task) (rows : Split) : SchedulerState :=
  { s with
    doings := s.doings.eraseP (·.id = t.id)
    dones := s.dones ++ [{ t with status := .done, error := none }]
    results := (t.id, rows) :: s.results.filter (·.1 ≠ t.id)
    allocated := s.allocated.filter (·.2 ≠ t.id) }

/-- A running task has failed, and its executors are free. -/
def withFailed (s : SchedulerState) (t : Task) (fault : TaskFault) : SchedulerState :=
  { s with
    doings := s.doings.eraseP (·.id = t.id)
    fails := s.fails ++ [{ t with status := .failed, error := some fault }]
    allocated := s.allocated.filter (·.2 ≠ t.id) }

/-- A task that still runs is filed by its fate. Any other is left as it is. -/
def settled (s : SchedulerState) (id : TaskId) (fate : Fate) : SchedulerState :=
  match s.doings.get? id, fate with
  | some t, .done rows => s.withDone t rows
  | some t, .failed fault => s.withFailed t fault
  | _, _ => s

variable {s : SchedulerState} {id : TaskId}

theorem settled_of_none (h : s.doings.get? id = none) (fate : Fate) : s.settled id fate = s := by
  simp only [settled, h]

theorem settled_stays (s : SchedulerState) (id : TaskId) : s.settled id .stays = s := by
  unfold settled
  cases s.doings.get? id <;> rfl

theorem finish_done (s : SchedulerState) (id : TaskId) (rows : Split) :
    s.finish id true none (some rows) = if (s.doings.get? id).isSome then
      .ok (s.settled id (.done rows)) else .error (s.notDoing id) := by
  rw [finish, TaskList.take?_eq]
  cases hget : s.doings.get? id with
  | none => rfl
  | some t =>
    obtain rfl := TaskList.id_of_get? hget
    simp only [settled, hget]
    rfl

theorem finish_failed (s : SchedulerState) (id : TaskId) (fault : TaskFault) :
    s.finish id false (some fault) none = if (s.doings.get? id).isSome then
      .ok (s.settled id (.failed fault)) else .error (s.notDoing id) := by
  rw [finish, TaskList.take?_eq]
  cases hget : s.doings.get? id with
  | none => rfl
  | some t =>
    obtain rfl := TaskList.id_of_get? hget
    simp only [settled, hget]
    rfl

theorem find?_settled (s : SchedulerState) {id other : TaskId} (h : other ≠ id) (fate : Fate) :
    (s.settled id fate).find? other = s.find? other := by
  cases hget : s.doings.get? id with
  | none => rw [settled_of_none hget]
  | some t =>
    obtain rfl := TaskList.id_of_get? hget
    cases fate with
    | stays => rw [settled_stays]
    | done | failed =>
      simp only [settled, hget, withDone, withFailed, find?, TaskList.get?_eraseP _ h]
      rw [TaskList.get?_push]
      exact h

theorem lookup_settled (s : SchedulerState) {id other : TaskId} (h : other ≠ id) (fate : Fate) :
    (s.settled id fate).results.lookup other = s.results.lookup other := by
  cases hget : s.doings.get? id with
  | none => rw [settled_of_none hget]
  | some t =>
    obtain rfl := TaskList.id_of_get? hget
    cases fate with
    | stays => rw [settled_stays]
    | failed => simp only [settled, hget, withFailed]
    | done rows =>
      simp only [settled, hget, withDone]
      exact lookup_store _ rows h

end SchedulerState

/-! ## One turn -/

/-- The executor of the root is asked for the rows of a task, or nobody is. -/
inductive Fetched (c : Client (World κ)) (r : Running) :
    World κ → Option (Except RpcError Split) → World κ → Prop
  | unasked {w : World κ} : Fetched c r w none w
  | asked {root : Location} {answer : Except RpcError Split} {w w' : World κ} (hroot : r.root = some root)
      (h : c.results root r.task w = (answer, w')) : Fetched c r w (some answer) w'

/-- What a poll does about one of its tasks. -/
structure Turn where
  running : Running
  reports : Reports
  /-- What the executor of the root has answered if it was asked for the rows. -/
  fetched : Option (Except RpcError Split)
  fate : Fate
  /-- The scheduler when the poll takes the lock to file the task. -/
  before : SchedulerState

namespace Turn

variable (t : Turn)

def after : SchedulerState := t.before.settled t.running.task t.fate

def files : Bool := t.fate ≠ .stays && (t.before.doings.get? t.running.task).isSome

/-- The calls of a turn, and its end. Executors of a task that is to be filed are told to give it up. -/
def Taken (c : Client (World κ)) (w : World κ) (w' : World κ) : Prop :=
  ∃ w₁ w₂ w₃, Asked c w t.reports w₁ ∧ Fetched c t.running w₁ t.fetched w₂ ∧
    w₃ = (if t.fate = .stays then w₂ else World.abortAll c t.running.task t.running.executors w₂) ∧
    w₃.scheduler = t.before ∧ w' = w₃.onScheduler t.after

/-- The fate of a task is what its own executors say, in the order of its plan. -/
structure Judged : Prop where
  planned : t.reports.map (·.1) <+: t.running.executors
  whole : Quiet t.running.task t.reports → t.reports.map (·.1) = t.running.executors
  fetched : t.fetched.isSome ↔ Confirmed t.running.task t.running.executors t.reports
  done : ∀ rows, t.fate = .done rows ↔
    Confirmed t.running.task t.running.executors t.reports ∧ t.fetched = some (.ok rows)
  failed : ∀ fault, t.fate = .failed fault ↔ Denied t.running.task t.reports fault ∨
    Confirmed t.running.task t.running.executors t.reports ∧ ∃ root e, t.running.root = some root ∧
      t.fetched = some (.error e) ∧ fault = .noResults root.name e

/-- Filing a task changes no other, and nothing if the task has left the running ones. -/
structure Confined : Prop where
  left : t.before.doings.get? t.running.task = none → t.after = t.before
  others : ∀ id ≠ t.running.task, t.after.find? id = t.before.find? id ∧
    t.after.results.lookup id = t.before.results.lookup id

theorem confined (t : Turn) : t.Confined where
  left h := SchedulerState.settled_of_none h t.fate
  others _ h := ⟨SchedulerState.find?_settled t.before h t.fate, SchedulerState.lookup_settled t.before h t.fate⟩

end Turn

/-- What a poll hears about a task and what it makes of it. -/
inductive Hearing (c : Client (World κ)) (r : Running) (w : World κ) (reports : Reports) :
    Option (Except RpcError Split) → Fate → World κ → Prop
  | denied {fault : TaskFault} {w' : World κ} (hasked : Asked c w reports w')
      (h : Denied r.task reports fault) : Hearing c r w reports none (.failed fault) w'
  | undecided {w' : World κ} (hasked : Asked c w reports w') (hquiet : Quiet r.task reports)
      (h : ¬Confirmed r.task r.executors reports) : Hearing c r w reports none .stays w'
  | done {root : Location} {rows : Split} {w' w'' : World κ} (hasked : Asked c w reports w')
      (h : Confirmed r.task r.executors reports) (hroot : r.root = some root)
      (hrows : c.results root r.task w' = (.ok rows, w'')) :
      Hearing c r w reports (some (.ok rows)) (.done rows) w''
  | unfetched {root : Location} {e : RpcError} {w' w'' : World κ} (hasked : Asked c w reports w')
      (h : Confirmed r.task r.executors reports) (hroot : r.root = some root)
      (hrows : c.results root r.task w' = (.error e, w'')) :
      Hearing c r w reports (some (.error e)) (.failed (.noResults root.name e)) w''

section Hearings

variable {r : Running} {w w' : World κ} {reports : Reports} {fetched : Option (Except RpcError Split)}
  {fate : Fate}

theorem Hearing.asked (h : Hearing c r w reports fetched fate w') :
    ∃ w₁, Asked c w reports w₁ ∧ Fetched c r w₁ fetched w' := by
  cases h with
  | denied hasked | undecided hasked => exact ⟨_, hasked, .unasked⟩
  | done hasked _ hroot hrows => exact ⟨_, hasked, .asked hroot hrows⟩
  | unfetched hasked _ hroot hrows => exact ⟨_, hasked, .asked hroot hrows⟩

theorem Hearing.fetched_iff (h : Hearing c r w reports fetched fate w') :
    fetched.isSome ↔ Confirmed r.task r.executors reports := by
  cases h with
  | denied _ h => exact iff_of_false Bool.false_ne_true fun hconfirmed => h.not_quiet hconfirmed.quiet
  | undecided _ _ h => exact iff_of_false Bool.false_ne_true h
  | done _ h | unfetched _ h => exact iff_of_true rfl h

theorem Hearing.done_iff (h : Hearing c r w reports fetched fate w') (rows : Split) :
    fate = .done rows ↔ Confirmed r.task r.executors reports ∧ fetched = some (.ok rows) := by
  cases h with
  | denied | undecided | unfetched =>
    refine iff_of_false (fun heq => ?_) fun heq => ?_
    · cases heq
    · cases heq.2
  | done _ h =>
    refine ⟨fun heq => ?_, fun heq => ?_⟩
    · cases heq
      exact ⟨h, rfl⟩
    · cases heq.2
      rfl

theorem Hearing.failed_iff (h : Hearing c r w reports fetched fate w') (fault : TaskFault) :
    fate = .failed fault ↔ Denied r.task reports fault ∨
      Confirmed r.task r.executors reports ∧ ∃ root e, r.root = some root ∧
        fetched = some (.error e) ∧ fault = .noResults root.name e := by
  cases h with
  | @denied fault' _ _ h =>
    refine ⟨fun heq => ?_, fun heq => ?_⟩
    · cases heq
      exact .inl h
    · rcases heq with hdenied | ⟨hconfirmed, _⟩
      · rw [h.unique hdenied]
      · exact absurd hconfirmed.quiet h.not_quiet
  | undecided _ hquiet h =>
    refine iff_of_false (fun heq => ?_) fun heq => ?_
    · cases heq
    · rcases heq with hdenied | ⟨hconfirmed, _⟩
      · exact hdenied.not_quiet hquiet
      · exact h hconfirmed
  | done _ h =>
    refine iff_of_false (fun heq => ?_) fun heq => ?_
    · cases heq
    · rcases heq with hdenied | ⟨_, _, _, _, heq, _⟩
      · exact hdenied.not_quiet h.quiet
      · cases heq
  | @unfetched root e _ _ _ h hroot =>
    refine ⟨fun heq => ?_, fun heq => ?_⟩
    · cases heq
      exact .inr ⟨h, root, e, hroot, rfl, rfl⟩
    · rcases heq with hdenied | ⟨_, root', e', hroot', heq, hfault⟩
      · exact absurd h.quiet hdenied.not_quiet
      · cases heq
        rw [hroot] at hroot'
        cases hroot'
        rw [hfault]

end Hearings

def Fate.verdict : Fate → Verdict × Option Split
  | .stays => (.running, none)
  | .done rows => (.done, some rows)
  | .failed fault => (.failed fault, none)

theorem World.judge_hearing (c : Client (World κ)) {r : Running} {root : Location}
    (hroot : r.root = some root) (w : World κ) : ∃ reports fetched fate w',
      Hearing c r w reports fetched fate w' ∧ reports.map (·.1) <+: r.executors ∧
        (Quiet r.task reports → reports.map (·.1) = r.executors) ∧
        judge c r w = (fate.verdict.1, fate.verdict.2, w') := by
  obtain ⟨reports, hasked, hplanned, houtcome⟩ := askAll_heard c r.task .done r.executors w
  rcases hask : askAll c r.task .done r.executors w with ⟨verdict, w₁⟩
  rw [hask] at hasked houtcome
  rcases houtcome with ⟨fault, hdenied, rfl⟩ | ⟨hquiet, hplan, hrest⟩
  · refine ⟨reports, none, .failed fault, w₁, .denied hasked hdenied, hplanned,
      fun hquiet => absurd hquiet hdenied.not_quiet, ?_⟩
    rw [judge, hask]
    rfl
  · rcases hrest with ⟨hall, rfl⟩ | ⟨hnot, rfl⟩
    · rcases hresults : c.results root r.task w₁ with ⟨_ | rows, w₂⟩
      · refine ⟨reports, _, _, w₂, .unfetched hasked ⟨hplan, hall⟩ hroot hresults, hplanned, fun _ => hplan, ?_⟩
        simp only [judge, hask, hroot, hresults]
        rfl
      · refine ⟨reports, _, _, w₂, .done hasked ⟨hplan, hall⟩ hroot hresults, hplanned, fun _ => hplan, ?_⟩
        simp only [judge, hask, hroot, hresults]
        rfl
    · refine ⟨reports, none, .stays, w₁, .undecided hasked hquiet fun h => hnot h.2, hplanned,
        fun _ => hplan, ?_⟩
      rw [judge, hask]
      rfl

/-- Filing a task that is done or has failed, unless it has left the running ones. -/
theorem World.close_turn (t : Turn) (hfate : t.fate ≠ .stays) (w : World κ) (hw : w.scheduler = t.before)
    (error : SchedulerError) :
    (match (if (t.before.doings.get? t.running.task).isSome then .ok t.after else .error error :
        Except SchedulerError SchedulerState) with
      | .ok s => (true, w.onScheduler s)
      | .error _ => (false, w)) = (t.files, w.onScheduler t.after) := by
  by_cases hruns : (t.before.doings.get? t.running.task).isSome
  · have hfiles : t.files = true := by simp only [Turn.files, hruns, hfate, ne_eq, not_false_eq_true,
      decide_true, Bool.and_self]
    rw [if_pos hruns, hfiles]
  · have hfiles : t.files = false := by simp only [Turn.files, hruns, Bool.and_false]
    have hafter : t.after = w.scheduler := by
      rw [Turn.after, SchedulerState.settled_of_none (Option.not_isSome_iff_eq_none.mp hruns), hw]
    rw [if_neg hruns, hfiles, hafter]
    rfl

theorem World.pollTask_turn (c : Client (World κ)) {r : Running} {root : Location}
    (hroot : r.root = some root) (w : World κ) : ∃ t : Turn, t.running = r ∧
      t.Taken c w (pollTask c r w).2 ∧ t.Judged ∧ (pollTask c r w).1 = t.files := by
  obtain ⟨reports, fetched, fate, w', hhearing, hplanned, hwhole, hjudge⟩ := judge_hearing c hroot w
  obtain ⟨w₁, hasked, hfetched⟩ := hhearing.asked
  let w₃ := if fate = .stays then w' else abortAll c r.task r.executors w'
  let t : Turn := ⟨r, reports, fetched, fate, w₃.scheduler⟩
  have hpoll : pollTask c r w = (t.files, w₃.onScheduler t.after) := by
    rw [pollTask, hjudge]
    cases fate with
    | stays =>
      have hafter : t.after = w'.scheduler := SchedulerState.settled_stays ..
      rw [hafter]
      rfl
    | done rows =>
      have habort : abortAll c r.task r.executors w' = w₃ := rfl
      simp only [Fate.verdict, habort, SchedulerState.finish_done]
      exact close_turn t (fun h => by cases h) w₃ rfl _
    | failed fault =>
      have habort : abortAll c r.task r.executors w' = w₃ := rfl
      simp only [Fate.verdict, habort, SchedulerState.finish_failed]
      exact close_turn t (fun h => by cases h) w₃ rfl _
  refine ⟨t, rfl, ?_, ⟨hplanned, hwhole, hhearing.fetched_iff, hhearing.done_iff, hhearing.failed_iff⟩,
    by rw [hpoll]⟩
  rw [hpoll]
  exact ⟨w₁, w', w₃, hasked, hfetched, rfl, rfl, rfl⟩

/-! ## All turns -/

/-- The turns of a poll, one after the other. -/
inductive Rounds (c : Client (World κ)) : World κ → List Turn → World κ → Prop
  | nil {w : World κ} : Rounds c w [] w
  | cons {t : Turn} {ts : List Turn} {w w' w'' : World κ} (h : t.Taken c w w') (hs : Rounds c w' ts w'') :
      Rounds c w (t :: ts) w''

theorem World.pollEach_rounds (c : Client (World κ)) {rs : List Running} (hroots : ∀ r ∈ rs, r.root.isSome)
    (w : World κ) : ∃ turns : List Turn, turns.map (·.running) = rs ∧
      Rounds c w turns (pollEach c rs w).2 ∧ (∀ t ∈ turns, t.Judged) ∧
      (pollEach c rs w).1 = (turns.filter (·.files)).map (·.running.task) := by
  induction rs generalizing w with
  | nil => exact ⟨[], rfl, .nil, List.forall_mem_nil _, rfl⟩
  | cons r rs ih =>
    obtain ⟨hroot, hrest⟩ := List.forall_mem_cons.mp hroots
    obtain ⟨root, hroot⟩ := Option.isSome_iff_exists.mp hroot
    obtain ⟨t, rfl, htaken, hjudged, hended⟩ := pollTask_turn c hroot w
    obtain ⟨ts, rfl, hrounds, halljudged, hids⟩ := ih hrest (pollTask c t.running w).2
    refine ⟨t :: ts, rfl, .cons htaken hrounds, List.forall_mem_cons.mpr ⟨hjudged, halljudged⟩, ?_⟩
    rw [pollEach]
    simp only [hended, hids, List.filter_cons]
    cases t.files <;> rfl

end QueryCluster
