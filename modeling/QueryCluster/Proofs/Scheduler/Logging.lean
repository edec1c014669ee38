import QueryCluster.Proofs.Scheduler.Interleaving

/-!
# A client that logs

A log holds the calls of a run, with how each was answered and how the scheduler stood before and after it.
To keep one changes nothing: the run goes as it would without, and has its log besides.
-/
namespace QueryCluster

inductive Errand where
  | phase (p : Phase)
  | abort (task : TaskId)
  | status
  | results (task : TaskId)
  deriving DecidableEq

/-- A call that was answered. -/
structure Exchange where
  errand : Errand
  executor : Location
  fault : Option RpcError
  /-- The scheduler when the call was made. -/
  before : SchedulerState
  /-- The scheduler when it was answered. -/
  after : SchedulerState

namespace Exchange

/-- What was asked of whom. -/
def call (e : Exchange) : Errand × Location := (e.errand, e.executor)

/-- Whom a errand was made to, in order. -/
def asked (errand : Errand) (log : List Exchange) : List Location :=
  (log.filter (·.errand = errand)).map (·.executor)

/-- Calls that lead from one state of the scheduler to another. -/
inductive Chain : SchedulerState → List Exchange → SchedulerState → Prop
  | nil {s : SchedulerState} : Chain s [] s
  | cons {e : Exchange} {log : List Exchange} {s : SchedulerState} (h : Chain e.after log s) :
      Chain e.before (e :: log) s

variable {log log' : List Exchange} {s s' s'' : SchedulerState}

theorem Chain.append (h : Chain s log s') (h' : Chain s' log' s'') : Chain s (log ++ log') s'' := by
  induction h with
  | nil => exact h'
  | cons _ ih => exact .cons (ih h')

/-- What every call keeps is never lost. -/
theorem Chain.keeps {P : SchedulerState → Prop} (h : Chain s log s')
    (hstep : ∀ e ∈ log, P e.before → P e.after) (hs : P s) :
    P s' ∧ ∀ e ∈ log, P e.before ∧ P e.after := by
  induction h with
  | nil => exact ⟨hs, List.forall_mem_nil _⟩
  | cons _ ih =>
    obtain ⟨hhead, htail⟩ := List.forall_mem_cons.mp hstep
    obtain ⟨hend, hrest⟩ := ih htail (hhead hs)
    exact ⟨hend, List.forall_mem_cons.mpr ⟨⟨hs, hhead hs⟩, hrest⟩⟩

@[simp] theorem asked_append (errand : Errand) :
    asked errand (log ++ log') = asked errand log ++ asked errand log' := by
  simp only [asked, List.filter_append, List.map_append]

theorem asked_of_forall {errand : Errand} (h : ∀ e ∈ log, e.errand = errand) :
    asked errand log = log.map (·.executor) := by
  rw [asked, List.filter_eq_self.mpr fun e he => decide_eq_true (h e he)]

theorem asked_of_forall_ne {errand : Errand} (h : ∀ e ∈ log, e.errand ≠ errand) :
    asked errand log = [] := by
  rw [asked, List.filter_eq_nil_iff.mpr fun e he => by simpa using h e he, List.map_nil]

/-- One errand to each of some executors. -/
theorem errand_of_calls {errand : Errand} {ls : List Location} (h : log.map call = ls.map (errand, ·)) :
    (∀ e ∈ log, e.errand = errand) ∧ log.map (·.executor) = ls := by
  refine ⟨fun e he => ?_, ?_⟩
  · obtain ⟨_, _, hcall⟩ := List.mem_map.mp (h ▸ List.mem_map_of_mem he)
    exact (congrArg Prod.fst hcall).symm
  · have hexecutors := congrArg (List.map Prod.snd) h
    rw [List.map_map, List.map_map] at hexecutors
    exact hexecutors.trans (List.map_id ls)

end Exchange

namespace World

variable {κ : Type}

/-- A world in which a log is kept. -/
def withLog (w : World κ) (log : List Exchange) : World (κ × List Exchange) where
  scheduler := w.scheduler
  topology := w.topology
  outside := (w.outside, log)

def withoutLog (w : World (κ × List Exchange)) : World κ where
  scheduler := w.scheduler
  topology := w.topology
  outside := w.outside.1

def faultOf {α : Type} : Except RpcError α → Option RpcError
  | .ok _ => none
  | .error e => some e

/-- Makes a call and notes it. -/
def note {α : Type} (errand : Errand) (executor : Location)
    (call : World κ → Except RpcError α × World κ) (w : World (κ × List Exchange)) :
    Except RpcError α × World (κ × List Exchange) :=
  let (answer, w') := call w.withoutLog
  (answer, w'.withLog
    (w.outside.2 ++ [⟨errand, executor, faultOf answer, w.scheduler, w'.scheduler⟩]))

theorem note_withLog {α : Type} {call : World κ → Except RpcError α × World κ} {w w' : World κ}
    {answer : Except RpcError α} (h : call w = (answer, w')) (errand : Errand) (executor : Location)
    (log : List Exchange) : note errand executor call (w.withLog log) =
      (answer, w'.withLog (log ++ [⟨errand, executor, faultOf answer, w.scheduler, w'.scheduler⟩])) := by
  have hcall : call (w.withLog log).withoutLog = (answer, w') := h
  rw [note, hcall]
  rfl

end World

/-- Does as another client does, and keeps a log. -/
def Client.logged {κ : Type} (c : Client (World κ)) : Client (World (κ × List Exchange)) where
  perform phase l i := World.note (.phase phase) l (c.perform phase l i)
  abort l task := World.note (.abort task) l (c.abort l task)
  status l := World.note .status l (c.status l)
  results l task := World.note (.results task) l (c.results l task)

open Exchange (Chain)

/-- Executors are told to give a task up one after the other, whatever they answer. -/
theorem World.abortAll_logged {κ : Type} (c : Client (World κ)) (task : TaskId) (ls : List Location)
    (w : World κ) (log : List Exchange) : ∃ new,
      abortAll c.logged task ls (w.withLog log) = (abortAll c task ls w).withLog (log ++ new) ∧
      Chain w.scheduler new (abortAll c task ls w).scheduler ∧
      new.map Exchange.call = ls.map (Errand.abort task, ·) := by
  induction ls generalizing w log with
  | nil => exact ⟨[], by rw [List.append_nil]; rfl, .nil, rfl⟩
  | cons l ls ih =>
    rcases hl : c.abort l task w with ⟨answer, w'⟩
    let e : Exchange := ⟨.abort task, l, faultOf answer, w.scheduler, w'.scheduler⟩
    obtain ⟨new, hrun, hchain, hcalls⟩ := ih w' (log ++ [e])
    have hcall : c.logged.abort l task (w.withLog log) = (answer, w'.withLog (log ++ [e])) :=
      note_withLog hl (.abort task) l log
    simp only [abortAll, hl, hcall]
    refine ⟨e :: new, ?_, @Chain.cons e new _ hchain, congrArg ((Errand.abort task, l) :: ·) hcalls⟩
    rwa [List.append_assoc] at hrun

end QueryCluster
