import Mathlib.Logic.Relation
import QueryCluster.Scheduler.Run

/-!
# Calls that take turns

A call to the scheduler holds its lock for a while, lets go of it to compile or to talk to executors,
and takes it again. Each section under the lock is one step here, and between any two of them any
section of any other call may come, and executors may come, go and change their status. The functions
that make a call in one go are runs of such steps, provided that others act by such steps too.
-/
namespace QueryCluster

/-- A call that has let go of the lock and will take it again. -/
inductive Underway where
  /-- A query that is compiled to become a task. -/
  | admission (task : Task)
  | dispatch (task : TaskId)
  /-- The tasks that are still to be looked after. -/
  | poll (rest : List Running)
  | fetch (task : TaskId)

/-- The task that a call is about to file. -/
def Underway.admits : Underway → Option TaskId
  | admission task => some task.id
  | _ => none

/-- The scheduler, and all who use it. -/
structure Shared where
  scheduler : SchedulerState := {}
  topology : Topology := []
  calls : List Underway := []
  /-- The tasks whose admission has returned. -/
  admitted : List TaskId := []

/-- What is left to do of an attempt to start a task. -/
def Underway.ofStart : Except SchedulerError (RunOutcome ⊕ Start) → Option Underway
  | .ok (.inr start) => some (.dispatch start.task)
  | _ => none

theorem Underway.mem_ofStart {r : Except SchedulerError (RunOutcome ⊕ Start)} {c : Underway}
    (h : c ∈ ofStart r) : ∃ id, c = .dispatch id := by
  rcases r with _ | _ | start <;> cases h
  exact ⟨start.task, rfl⟩

/-- A section under the lock, with what is left of its call before and after it. Numbers of tasks
must not run out. Compilers, executors and whoever finishes a task may say what they want. -/
inductive Locked (config : Config) (topology : Topology) :
    Option Underway → SchedulerState → Option Underway → SchedulerState → Prop
  | issue {s : SchedulerState} (query catalog schema : String) (priority : Int) (time : Nat)
      (h : s.nextId + 1 ≠ 0) : Locked config topology none s
        (some (.admission { id := s.takeId.1, query, catalog, schema, priority, committed := time }))
        s.takeId.2
  | enqueue {s : SchedulerState} (task : Task) (compiled : Except PlanError (Plan × Nat)) :
      Locked config topology (some (.admission task)) s none (s.enqueue task compiled).2
  | start {s : SchedulerState} : Locked config topology none s
      (Underway.ofStart (s.startTask config (s.free topology)).1)
      (s.startTask config (s.free topology)).2
  | dispatched {s : SchedulerState} (id : TaskId) :
      Locked config topology (some (.dispatch id)) s none (s.markDispatched id)
  | undispatched {s : SchedulerState} (id : TaskId) (fault : TaskFault) :
      Locked config topology (some (.dispatch id)) s none
        (s.failDispatch id fault config.abortOnDispatchFailure)
  | finish {s s' : SchedulerState} {id : TaskId} {success : Bool} {error : Option TaskFault}
      (h : s.finish id success error none = .ok s') : Locked config topology none s none s'
  | release {s : SchedulerState} (id : TaskId) (h : ∀ t ∈ s.doings, t.id ≠ id) :
      Locked config topology none s none (s.release id).2
  | poll {s : SchedulerState} : Locked config topology none s (some (.poll s.running)) s
  | close {s s' : SchedulerState} {r : Running} {rest : List Running} {success : Bool}
      {error : Option TaskFault} {rows : Option Split}
      (h : s.finish r.task success error rows = .ok s') :
      Locked config topology (some (.poll (r :: rest))) s (some (.poll rest)) s'
  | pass {s : SchedulerState} (r : Running) (rest : List Running) :
      Locked config topology (some (.poll (r :: rest))) s (some (.poll rest)) s
  | polled {s : SchedulerState} : Locked config topology (some (.poll [])) s none s
  | locate {s : SchedulerState} {id : TaskId} {root : Location}
      (h : s.locateResults id = .ok (.inr root)) : Locked config topology none s (some (.fetch id)) s
  | store {s : SchedulerState} (id : TaskId) (rows : Split) :
      Locked config topology (some (.fetch id)) s none (s.storeResults id rows)
  | missed {s : SchedulerState} (id : TaskId) : Locked config topology (some (.fetch id)) s none s

/-- Some call goes through its next section, or executors come, go or change. -/
inductive Step (config : Config) : Shared → Shared → Prop
  | locked {s s' : SchedulerState} {t : Topology} {before after : Option Underway}
      (front back : List Underway) (admitted : List TaskId) (h : Locked config t before s after s') :
      Step config ⟨s, t, front ++ before.toList ++ back, admitted⟩
        ⟨s', t, front ++ after.toList ++ back, (before.bind Underway.admits).toList ++ admitted⟩
  | topology {s : SchedulerState} {t t' : Topology} (calls : List Underway) (admitted : List TaskId)
      (h : (t'.map (·.location.name)).Nodup) :
      Step config ⟨s, t, calls, admitted⟩ ⟨s, t', calls, admitted⟩

abbrev Steps (config : Config) : Shared → Shared → Prop := Relation.ReflTransGen (Step config)

namespace World

variable {κ : Type} {config : Config} {w w' w'' : World κ} {before between after : Option Underway}

/-- Steps bring a call from one stage to another, and a world to another, whoever else is at work. -/
def Evolves (config : Config) (before after : Option Underway) (w w' : World κ) : Prop :=
  ∀ front back admitted, ∃ others admitted',
    Steps config ⟨w.scheduler, w.topology, front ++ before.toList ++ back, admitted⟩
      ⟨w'.scheduler, w'.topology, front ++ others ++ after.toList ++ back, admitted' ++ admitted⟩

theorem Evolves.refl (w : World κ) : Evolves config before before w w := fun front back admitted =>
  ⟨[], [], by rw [List.append_nil]; exact .refl⟩

theorem Evolves.trans (h : Evolves config before between w w')
    (h' : Evolves config between after w' w'') : Evolves config before after w w'' := by
  intro front back admitted
  obtain ⟨others, admitted', hsteps⟩ := h front back admitted
  obtain ⟨others', admitted'', hsteps'⟩ := h' (front ++ others) back (admitted' ++ admitted)
  refine ⟨others ++ others', admitted'' ++ admitted', ?_⟩
  rw [← List.append_assoc front, List.append_assoc admitted'']
  exact hsteps.trans hsteps'

/-- Others are at work while a call waits for them. -/
theorem Evolves.waiting (h : Evolves config none none w w') (call : Option Underway) :
    Evolves config call call w w' := by
  intro front back admitted
  obtain ⟨others, admitted', hsteps⟩ := h front (call.toList ++ back) admitted
  refine ⟨others, admitted', ?_⟩
  simpa only [Option.toList_none, List.append_nil, List.append_assoc] using hsteps

theorem Evolves.locked {s : SchedulerState}
    (h : Locked config w.topology before w.scheduler after s) :
    Evolves config before after w (w.onScheduler s) := fun front back admitted => by
  refine ⟨[], (before.bind Underway.admits).toList, ?_⟩
  rw [List.append_nil]
  exact .single (.locked front back admitted h)

/-- Ways from one stage of a call to another, and from one world to another, that are made of sections
under the lock. Those that file a task are told apart. -/
structure Evolution (config : Config)
    (E : Option Underway → Option Underway → World κ → World κ → Prop) : Prop where
  refl : ∀ call w, E call call w w
  trans : ∀ {before between after w w' w''}, E before between w w' → E between after w' w'' →
    E before after w w''
  waiting : ∀ call {w w'}, E none none w w' → E call call w w'
  locked : ∀ {before after w s}, Locked config w.topology before w.scheduler after s →
    before.bind Underway.admits = none → E before after w (w.onScheduler s)

theorem evolution_evolves (config : Config) : Evolution config (@Evolves κ config) where
  refl _ w := .refl w
  trans := .trans
  waiting call _ _ h := h.waiting call
  locked h _ := .locked h

end World

/-! ## The calls of a client -/

/-- One call is made and answered. -/
inductive Client.Called {ω : Type} (c : Client ω) : ω → ω → Prop
  | perform (phase : Phase) (l : Location) (i : Instruction) (w : ω) :
      Called c w (c.perform phase l i w).2
  | abort (l : Location) (task : TaskId) (w : ω) : Called c w (c.abort l task w).2
  | status (l : Location) (w : ω) : Called c w (c.status l w).2
  | results (l : Location) (task : TaskId) (w : ω) : Called c w (c.results l task w).2

abbrev Client.Calls {ω : Type} (c : Client ω) : ω → ω → Prop := Relation.ReflTransGen c.Called

namespace Client

variable {ω : Type} (c : Client ω)

theorem inSequence_calls (phase : Phase) (nodes : List Assignment) (w : ω) :
    c.Calls w (c.inSequence phase nodes w).2 := by
  induction nodes generalizing w with
  | nil => exact .refl
  | cons a nodes ih =>
    have hcall := Called.perform (c := c) phase a.location a.instruction w
    rw [inSequence]
    split
    · rename_i heq
      rw [heq] at hcall
      exact .single hcall
    · rename_i heq
      rw [heq] at hcall
      exact .head hcall (ih _)

theorem callEach_calls (phase : Phase) (nodes : List Assignment) (order : List Nat) (w : ω) :
    c.Calls w (c.callEach phase nodes order w).2 := by
  induction order generalizing w with
  | nil => exact .refl
  | cons i order ih =>
    rw [callEach]
    split
    · exact ih w
    · rename_i a _
      have hcall := Called.perform (c := c) phase a.location a.instruction w
      split
      all_goals
        rename_i heq
        rw [heq] at hcall
        exact .head hcall (ih _)

theorem callPhase_calls (mode : DispatchMode) (order : List Nat) (phase : Phase)
    (nodes : List Assignment) (w : ω) : c.Calls w (c.callPhase mode order phase nodes w).2 := by
  cases mode with
  | sequential => exact inSequence_calls c phase nodes w
  | parallel => exact callEach_calls c phase nodes _ w

theorem dispatch_calls (mode : DispatchMode) (order : Phase → List Nat) (nodes : List Assignment)
    (w : ω) : c.Calls w (c.dispatch mode order nodes w).2 := by
  have hphases : ∀ phases contacted w,
      c.Calls w (c.dispatchPhases mode order nodes contacted phases w).2 := by
    intro phases
    induction phases with
    | nil => exact fun _ w => .refl
    | cons phase phases ih =>
      intro contacted w
      have hphase := callPhase_calls c mode (order phase) phase nodes w
      rw [dispatchPhases]
      rcases heq : c.callPhase mode (order phase) phase nodes w with ⟨r, w'⟩
      rw [heq] at hphase
      rcases r with ⟨called, _ | ⟨l, e⟩⟩
      · exact hphase.trans (ih _ _)
      · exact hphase
  exact hphases _ _ w

end Client

namespace World

variable {κ : Type} (c : Client (World κ))

theorem abortAll_calls (task : TaskId) (ls : List Location) (w : World κ) :
    c.Calls w (abortAll c task ls w) := by
  induction ls generalizing w with
  | nil => exact .refl
  | cons l ls ih => exact .head (.abort l task w) (ih _)

theorem askAll_calls (task : TaskId) (verdict : Verdict) (ls : List Location) (w : World κ) :
    c.Calls w (askAll c task verdict ls w).2 := by
  induction ls generalizing verdict w with
  | nil => exact .refl
  | cons l ls ih =>
    have hcall := Client.Called.status (c := c) l w
    rw [askAll]
    rcases heq : c.status l w with ⟨answer, w'⟩
    rw [heq] at hcall
    simp only
    split
    · exact .head hcall (ih _ _)
    · exact .head hcall (ih _ _)
    · exact .single hcall

theorem judge_calls (r : Running) (w : World κ) : c.Calls w (judge c r w).2.2 := by
  have hask := askAll_calls c r.task .done r.executors w
  rw [judge]
  split
  · rename_i w' root heq _
    rw [heq] at hask
    have hcall := Client.Called.results (c := c) root r.task w'
    split
    all_goals
      rename_i hresults
      rw [hresults] at hcall
      exact hask.tail hcall
  · rename_i heq _
    rwa [heq] at hask

end World

/-- Whatever a client does to the scheduler is done by calls of others. -/
structure Client.Interleaves {κ : Type} (config : Config) (c : Client (World κ)) : Prop where
  perform : ∀ phase l i w, World.Evolves config none none w (c.perform phase l i w).2
  abort : ∀ l task w, World.Evolves config none none w (c.abort l task w).2
  status : ∀ l w, World.Evolves config none none w (c.status l w).2
  results : ∀ l task w, World.Evolves config none none w (c.results l task w).2

theorem Client.Interleaves.called {κ : Type} {config : Config} {c : Client (World κ)} {w w' : World κ}
    (hc : c.Interleaves config) (h : c.Called w w') : World.Evolves config none none w w' := by
  cases h with
  | perform => exact hc.perform _ _ _ _
  | abort => exact hc.abort _ _ _
  | status => exact hc.status _ _
  | results => exact hc.results _ _ _

/-! ## The functions of the scheduler as runs -/

section Calls

variable {κ : Type} {config : Config} {c : Client (World κ)}

namespace World

namespace Evolution

variable {E : Option Underway → Option Underway → World κ → World κ → Prop} (hE : Evolution config E)
  (hc : ∀ {w w'}, c.Called w w' → E none none w w')

include hE

theorem finishTask (w : World κ) (task : TaskId) (success : Bool) (message : Option String) :
    E none none w (w.finishTask task success message).2 := by
  rw [World.finishTask]
  split
  · exact hE.locked (.finish ‹_›) rfl
  · exact hE.refl none w

include hc

theorem calls {w w' : World κ} (h : c.Calls w w') : E none none w w' := by
  induction h with
  | refl => exact hE.refl none w
  | tail _ hcall ih => exact hE.trans ih (hc hcall)

theorem runTask (order : Phase → List Nat) (w : World κ) :
    E none none w (World.runTask c config order w).2 := by
  have hstart : E none (Underway.ofStart (w.scheduler.startTask config w.free).1) w
    (w.onScheduler (w.scheduler.startTask config w.free).2) := hE.locked .start rfl
  rw [World.runTask]
  split
  · rename_i heq
    rwa [heq] at hstart
  · rename_i heq
    rwa [heq] at hstart
  · rename_i start s heq
    rw [heq] at hstart
    have hdispatch := hE.trans hstart (hE.waiting (some (.dispatch start.task))
      (hE.calls hc (c.dispatch_calls config.dispatchMode order start.nodes (w.onScheduler s))))
    split
    · rename_i hok
      rw [hok] at hdispatch
      exact hE.trans hdispatch (hE.locked (.dispatched start.task) rfl)
    · rename_i f w' hfail
      rw [hfail] at hdispatch
      refine hE.trans (hE.trans hdispatch ?_) (hE.locked (.undispatched start.task _) rfl)
      split
      · exact hE.waiting _ (hE.calls hc (abortAll_calls c start.task f.contacted w'))
      · exact hE.refl _ w'

theorem pollTask (r : Running) (rest : List Running) (w : World κ) :
    E (some (.poll (r :: rest))) (some (.poll rest)) w (World.pollTask c r w).2 := by
  have hjudge := hE.calls hc (judge_calls c r w)
  have habort (w : World κ) := hE.waiting (some (.poll (r :: rest)))
    (hE.calls hc (abortAll_calls c r.task r.executors w))
  rw [World.pollTask]
  rcases heq : judge c r w with ⟨verdict, rows, w'⟩
  rw [heq] at hjudge
  cases verdict with
  | running => exact hE.trans (hE.waiting _ hjudge) (hE.locked (.pass r rest) rfl)
  | done =>
    refine hE.trans (hE.trans (hE.waiting _ hjudge) (habort w')) ?_
    dsimp only
    split
    · exact hE.locked (.close ‹_›) rfl
    · exact hE.locked (.pass r rest) rfl
  | failed fault =>
    refine hE.trans (hE.trans (hE.waiting _ hjudge) (habort w')) ?_
    dsimp only
    split
    · exact hE.locked (.close ‹_›) rfl
    · exact hE.locked (.pass r rest) rfl

theorem pollRunning (w : World κ) : E none none w (World.pollRunning c w).2 := by
  have heach : ∀ rs (w : World κ), E (some (.poll rs)) none w (pollEach c rs w).2 := by
    intro rs
    induction rs with
    | nil => exact fun w => hE.locked .polled rfl
    | cons r rs ih => exact fun w => hE.trans (hE.pollTask hc r rs w) (ih _)
  have hpoll : E none (some (.poll w.scheduler.running)) w w := hE.locked .poll rfl
  exact hE.trans hpoll (heach _ w)

theorem fetchResults (task : TaskId) (w : World κ) :
    E none none w (World.fetchResults c task w).2 := by
  rw [World.fetchResults]
  split
  · exact hE.refl none w
  · exact hE.refl none w
  · rename_i root hlocate
    have hcall := hE.waiting (some (.fetch task)) (hc (.results root task w))
    have hopen : E none (some (.fetch task)) w w := hE.locked (.locate hlocate) rfl
    split
    · rename_i heq
      rw [heq] at hcall
      exact hE.trans (hE.trans hopen hcall) (hE.locked (.missed task) rfl)
    · rename_i rows w' heq
      rw [heq] at hcall
      exact hE.trans (hE.trans hopen hcall) (hE.locked (.store task rows) rfl)

end Evolution

theorem addTask_evolves (w : World κ) (time : Nat) (query catalog schema : String) (priority : Int)
    (h : w.scheduler.nextId + 1 ≠ 0) :
    Evolves config none none w (w.addTask time query catalog schema priority).2 :=
  (Evolves.locked (.issue query catalog schema priority time h)).trans
    (Evolves.locked (.enqueue _ (compile query catalog schema)))

theorem runTask_evolves (hc : c.Interleaves config) (order : Phase → List Nat) (w : World κ) :
    Evolves config none none w (runTask c config order w).2 :=
  (evolution_evolves config).runTask hc.called order w

theorem finishTask_evolves (w : World κ) (task : TaskId) (success : Bool) (message : Option String) :
    Evolves config none none w (w.finishTask task success message).2 :=
  (evolution_evolves config).finishTask w task success message

theorem releaseExecutors_evolves (w : World κ) (task : TaskId)
    (h : ∀ t ∈ w.scheduler.doings, t.id ≠ task) :
    Evolves config none none w (w.releaseExecutors task).2 :=
  .locked (.release task h)

theorem pollRunning_evolves (hc : c.Interleaves config) (w : World κ) :
    Evolves config none none w (pollRunning c w).2 :=
  (evolution_evolves config).pollRunning hc.called w

theorem fetchResults_evolves (hc : c.Interleaves config) (task : TaskId) (w : World κ) :
    Evolves config none none w (fetchResults c task w).2 :=
  (evolution_evolves config).fetchResults hc.called task w

end World

end Calls
end QueryCluster
