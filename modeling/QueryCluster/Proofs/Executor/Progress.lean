import Mathlib.Data.List.Infix
import Mathlib.Data.List.Nodup
import Mathlib.Logic.Relation
import QueryCluster.Message.Basic
import QueryCluster.Proofs.Codec.Nodes
import QueryCluster.Proofs.Executor.Slots

/-!
# How an executor gets on

Requests come to an executor on connections of their own, and between the two halves of setting up its
inputs any other request may come, or a job end. From one reset to the next the state goes forward one
step at a time and the node is started once, as long as no two requests to set up the inputs of one
instruction are under way together. The second half looks at the epoch alone: of two that overlap, the
later takes back a node that already runs and lets it start again.
-/
namespace QueryCluster

/-- The states that may come right after a state when nothing is reset. -/
def ExecutorState.next : ExecutorState → List ExecutorState
  | idle => []
  | received => [writersReady]
  | writersReady => [readersReady]
  | readersReady => [running]
  | running => [done, failed]
  | done => []
  | failed => []

abbrev ExecutorState.Forward : ExecutorState → ExecutorState → Prop :=
  Relation.ReflTransGen fun a b => b ∈ a.next

/-- An executor between two steps: besides its slot, those who open its inputs and its jobs. -/
structure Station where
  slot : Slot := {}
  dials : List Dialling := []
  /-- The jobs that have not ended. -/
  jobs : List Job := []
  /-- All jobs that were ever started. -/
  started : List Job := []
  deriving DecidableEq

/-- What can come next. -/
inductive Event where
  /-- A request on a connection. -/
  | request (r : Request) (connection : StreamId)
  /-- All inputs have been opened. -/
  | dialled (d : Dialling) (streams : List StreamId)
  /-- An input could not be opened. -/
  | lost (d : Dialling)
  | ended (j : Job) (outcome : Except OperatorError (Option Split))
  deriving DecidableEq

def Event.sent (i : Instruction) : Event := .request (.sendInstruction i) 0

namespace Station

/-- A request that is refused changes nothing. -/
def adopt (s : Station) : Except ExecutorError Slot → Station
  | .ok slot => { s with slot }
  | .error _ => s

def answer (name : String) (s : Station) (connection : StreamId) : Request → Station
  | .sendInstruction i => s.adopt (s.slot.receive name i)
  | .setupWriters => s.adopt s.slot.setupWriters
  | .setupReaders =>
    match s.slot.beginReaders with
    | .ok d => { s with dials := d :: s.dials }
    | .error _ => s
  | .run =>
    match s.slot.start with
    | .ok (slot, j) => { s with slot, jobs := j :: s.jobs, started := j :: s.started }
    | .error _ => s
  | .abort task => s.adopt (s.slot.abort task)
  | .openStream task reader => s.adopt (s.slot.attach task reader connection)
  | .status => s
  | .fetchResults _ => s

def step (name : String) (s : Station) : Event → Station
  | .request r connection => s.answer name connection r
  | .dialled d streams =>
    if d ∈ s.dials then
      { s with dials := s.dials.erase d }.adopt (s.slot.commitReaders d.epoch streams)
    else s
  | .lost d => { s with dials := s.dials.erase d }
  | .ended j outcome =>
    if j ∈ s.jobs then
      { s with jobs := s.jobs.erase j, slot := s.slot.complete j.epoch outcome }
    else s

def run (name : String) (events : List Event) : Station := events.foldl (step name) {}

theorem run_concat (name : String) (events : List Event) (e : Event) :
    run name (events ++ [e]) = (run name events).step name e := by
  rw [run, List.foldl_append]
  rfl

def given (task : TaskId) (node : OperatorNode) : Station where
  slot := { epoch := 1, task := some task, node := some node, state := .received }

theorem run_sent {name : String} {i : Instruction} {node : OperatorNode} (hnode : i.node = .ok node)
    (hname : node.location.name = name) (events : List Event) :
    run name (Event.sent i :: events) = events.foldl (step name) (given i.task node) := by
  subst hname
  have hreceive := Slot.receive_ok (s := {}) hnode (List.mem_cons_self ..)
  simp only [run, List.foldl_cons, Event.sent, step, answer, adopt, hreceive]
  rfl

/-- The requests that make an executor drop what it holds. -/
def resets (name : String) (s : Station) : Event → Bool
  | .request (.sendInstruction i) _ => (s.slot.receive name i).isOk
  | .request (.abort task) _ => (s.slot.abort task).isOk
  | _ => false

/-- Nothing is reset while these events come. -/
def Unbroken (name : String) (before during : List Event) : Prop :=
  ∀ (front : List Event) (e : Event), front ++ [e] <+: during →
    (run name (before ++ front)).resets name e = false

/-- No event of another kind resets an executor, whatever state it is in. -/
def mayReset : Event → Bool
  | .request (.sendInstruction _) _ => true
  | .request (.abort _) _ => true
  | _ => false

theorem resets_of_not_mayReset {name : String} {s : Station} {e : Event} (h : mayReset e = false) :
    s.resets name e = false := by
  cases e with
  | request r connection =>
    cases r with
    | sendInstruction | abort => cases h
    | setupWriters | setupReaders | run | openStream | status | fetchResults => rfl
  | dialled | lost | ended => rfl

theorem unbroken_of_not_mayReset {name : String} {before during : List Event}
    (h : ∀ e ∈ during, mayReset e = false) : Unbroken name before during :=
  fun _ _ hfront => resets_of_not_mayReset (h _ (hfront.subset (List.mem_append_right _ (.head _))))

/-- The state has gone forward, and at most one job has been started. -/
structure ForwardOnly (name : String) (before during : List Event) : Prop where
  forward : (run name before).slot.state.Forward (run name (before ++ during)).slot.state
  once : (run name (before ++ during)).started.length ≤ (run name before).started.length + 1

/-- No two requests to set up the inputs of the present instruction are under way. -/
def Alone (s : Station) : Prop := s.dials.countP (·.epoch = s.slot.epoch) ≤ 1

instance (s : Station) : Decidable s.Alone := inferInstanceAs (Decidable (_ ≤ _))

theorem alone_of_inits {name : String} {i : Instruction} {node : OperatorNode} {events : List Event}
    (hnode : i.node = .ok node) (hname : node.location.name = name)
    (hall : ∀ es ∈ events.inits, (es.foldl (step name) (given i.task node)).Alone) :
    ∀ es, es <+: Event.sent i :: events → (run name es).Alone := by
  intro es h
  cases es with
  | nil => exact Nat.zero_le _
  | cons e es =>
    obtain ⟨rfl, hes⟩ := List.cons_prefix_cons.mp h
    rw [run_sent hnode hname]
    exact hall es ((List.mem_inits _ _).mpr hes)

variable {name : String} {s s' : Station}

/-! ## One step -/

/-- All that can change between two resets. -/
inductive Change : Station → Station → Prop
  | keep {s : Station} {slot : Slot} (hepoch : slot.epoch = s.slot.epoch)
      (hstate : slot.state = s.slot.state) : Change s { s with slot }
  | writers {s : Station} {slot : Slot} (hepoch : slot.epoch = s.slot.epoch)
      (hbefore : s.slot.state = .received) (hafter : slot.state = .writersReady) :
      Change s { s with slot }
  | dial {s : Station} {d : Dialling} (hstate : s.slot.state = .writersReady)
      (hcurrent : d.epoch = s.slot.epoch) : Change s { s with dials := d :: s.dials }
  | readers {s : Station} {slot : Slot} {d : Dialling} (hepoch : slot.epoch = s.slot.epoch)
      (hd : d ∈ s.dials) (hcurrent : d.epoch = s.slot.epoch) (hafter : slot.state = .readersReady) :
      Change s { s with slot, dials := s.dials.erase d }
  | lost {s : Station} (d : Dialling) : Change s { s with dials := s.dials.erase d }
  | start {s : Station} {slot : Slot} {j : Job} (hepoch : slot.epoch = s.slot.epoch)
      (hbefore : s.slot.state = .readersReady) (hafter : slot.state = .running)
      (hcurrent : j.epoch = s.slot.epoch) :
      Change s { s with slot, jobs := j :: s.jobs, started := j :: s.started }
  | finish {s : Station} {slot : Slot} {j : Job} (hepoch : slot.epoch = s.slot.epoch)
      (hj : j ∈ s.jobs) (hcurrent : j.epoch = s.slot.epoch)
      (hafter : slot.state ∈ ExecutorState.running.next) :
      Change s { s with slot, jobs := s.jobs.erase j }
  | stale {s : Station} (j : Job) : Change s { s with jobs := s.jobs.erase j }

theorem Change.refl (s : Station) : Change s s := .keep rfl rfl

theorem Change.epoch (h : Change s s') : s'.slot.epoch = s.slot.epoch := by
  cases h with
  | keep hepoch => exact hepoch
  | writers hepoch => exact hepoch
  | readers hepoch => exact hepoch
  | start hepoch => exact hepoch
  | finish hepoch => exact hepoch
  | dial | lost | stale => rfl

/-- A reset begins a new epoch and leaves those alone who dial or work. -/
inductive Stepped (name : String) (s : Station) (e : Event) : Station → Prop
  | reset {slot : Slot} (hreset : s.resets name e = true) (hepoch : slot.epoch = s.slot.epoch + 1) :
      Stepped name s e { s with slot }
  | change {s' : Station} (hreset : s.resets name e = false) (hc : Change s s') :
      Stepped name s e s'

theorem Stepped.change_of_resets {e : Event} (h : Stepped name s e s')
    (hreset : s.resets name e = false) : Change s s' := by
  cases h with
  | reset hresets => exact absurd (hreset.symm.trans hresets) Bool.false_ne_true
  | change _ hc => exact hc

theorem change_adopt {x : Except ExecutorError Slot}
    (h : ∀ slot, x = .ok slot → Change s { s with slot }) : Change s (s.adopt x) := by
  cases x with
  | error e => exact .refl s
  | ok slot => exact h slot rfl

theorem stepped_adopt {e : Event} {x : Except ExecutorError Slot} (he : s.resets name e = x.isOk)
    (h : ∀ slot, x = .ok slot → slot.epoch = s.slot.epoch + 1) :
    Stepped name s e (s.adopt x) := by
  cases x with
  | error fault => exact .change he (.refl s)
  | ok slot => exact .reset he (h slot rfl)

theorem stepped_answer (connection : StreamId) (r : Request) :
    Stepped name s (.request r connection) (s.answer name connection r) := by
  cases r with
  | sendInstruction i =>
    refine stepped_adopt rfl fun slot h => ?_
    obtain ⟨_, _, _, _, rfl⟩ := Slot.receive_eq_ok h
    rfl
  | setupWriters =>
    refine .change rfl (change_adopt fun slot h => ?_)
    obtain ⟨hstate, rfl⟩ := Slot.setupWriters_eq_ok h
    exact .writers rfl hstate rfl
  | setupReaders =>
    refine .change rfl ?_
    cases h : s.slot.beginReaders with
    | error e => simpa only [answer, h] using Change.refl s
    | ok d =>
      obtain ⟨hstate, _, hepoch, _⟩ := Slot.beginReaders_eq_ok h
      simpa only [answer, h] using Change.dial hstate hepoch
  | run =>
    refine .change rfl ?_
    cases h : s.slot.start with
    | error e => simpa only [answer, h] using Change.refl s
    | ok x =>
      obtain ⟨slot, j⟩ := x
      obtain ⟨hstate, _, _, hj, hslot⟩ := Slot.start_eq_ok h
      simp only [answer, h]
      exact .start (by rw [hslot]) hstate (by rw [hslot]) (by rw [hj])
  | abort task =>
    refine stepped_adopt rfl fun slot h => ?_
    obtain ⟨_, rfl⟩ := Slot.abort_eq_ok h
    rfl
  | openStream task reader =>
    refine .change rfl (change_adopt fun slot h => ?_)
    obtain ⟨_, _, _, _, rfl⟩ := Slot.attach_eq_ok h
    exact .keep rfl rfl
  | status => exact .change rfl (.refl s)
  | fetchResults task => exact .change rfl (.refl s)

theorem stepped (name : String) (s : Station) (e : Event) : Stepped name s e (s.step name e) := by
  cases e with
  | request r connection => exact stepped_answer connection r
  | dialled d streams =>
    refine .change rfl ?_
    by_cases hd : d ∈ s.dials
    · rw [step, if_pos hd]
      cases h : s.slot.commitReaders d.epoch streams with
      | error e => exact .lost d
      | ok slot =>
        obtain ⟨hepoch, rfl⟩ := Slot.commitReaders_eq_ok h
        exact .readers rfl hd hepoch.symm rfl
    · rw [step, if_neg hd]
      exact .refl s
  | lost d => exact .change rfl (.lost d)
  | ended j outcome =>
    refine .change rfl ?_
    by_cases hj : j ∈ s.jobs
    · rw [step, if_pos hj]
      by_cases hepoch : s.slot.epoch = j.epoch
      · refine .finish (Slot.epoch_complete _ _) hj hepoch.symm ?_
        simp only [Slot.complete, hepoch, ne_eq, not_true_eq_false, if_false]
        cases outcome <;> simp [ExecutorState.next]
      · rw [Slot.complete_of_ne hepoch]
        exact .stale j
    · rw [step, if_neg hj]
      exact .refl s

/-! ## The invariant -/

/-- What holds while no two requests to set up the inputs of an instruction overlap. Only what was
begun in the present epoch tells something about the state. -/
structure Orderly (s : Station) : Prop where
  dials : ∀ d ∈ s.dials, d.epoch ≤ s.slot.epoch
  dialling : ∀ d ∈ s.dials, d.epoch = s.slot.epoch → s.slot.state = .writersReady
  jobs : ∀ j ∈ s.jobs, j.epoch ≤ s.slot.epoch
  working : ∀ j ∈ s.jobs, j.epoch = s.slot.epoch → s.slot.state = .running
  one : s.jobs.countP (·.epoch = s.slot.epoch) ≤ 1

theorem Orderly.init : Orderly {} where
  dials := nofun
  dialling := nofun
  jobs := nofun
  working := nofun
  one := Nat.zero_le _

theorem not_of_mem_erase {α : Type} [DecidableEq α] {p : α → Prop} [DecidablePred p] {l : List α}
    {a b : α} (hone : l.countP (fun x => p x) ≤ 1) (ha : a ∈ l) (hpa : p a) (hb : b ∈ l.erase a) :
    ¬p b := by
  intro hpb
  have hcount := (List.perm_cons_erase ha).countP_eq (fun x => p x)
  have hpos : 0 < (l.erase a).countP (fun x => p x) :=
    List.countP_pos_iff.mpr ⟨b, hb, decide_eq_true hpb⟩
  rw [List.countP_cons_of_pos (p := fun x => p x) (decide_eq_true hpa)] at hcount
  omega

theorem Orderly.reset (h : Orderly s) {slot : Slot} (hepoch : slot.epoch = s.slot.epoch + 1) :
    Orderly { s with slot } := by
  have hdials : ∀ d ∈ s.dials, d.epoch < slot.epoch := fun d hd =>
    hepoch ▸ Nat.lt_succ_of_le (h.dials d hd)
  have hjobs : ∀ j ∈ s.jobs, j.epoch < slot.epoch := fun j hj =>
    hepoch ▸ Nat.lt_succ_of_le (h.jobs j hj)
  have hnone : s.jobs.countP (·.epoch = slot.epoch) = 0 :=
    List.countP_eq_zero.mpr fun j hj => by simpa using (hjobs j hj).ne
  exact
    { dials := fun d hd => (hdials d hd).le
      dialling := fun d hd heq => absurd heq (hdials d hd).ne
      jobs := fun j hj => (hjobs j hj).le
      working := fun j hj heq => absurd heq (hjobs j hj).ne
      one := hnone.le.trans (Nat.zero_le 1) }

/-- In one epoch those who are left of the dialling and the working have to fit the new state. -/
theorem Orderly.move (h : Orderly s) {slot : Slot} {dials : List Dialling} {jobs : List Job}
    (hepoch : slot.epoch = s.slot.epoch) (hdials : dials.Sublist s.dials)
    (hjobs : jobs.Sublist s.jobs)
    (hdialling : ∀ d ∈ dials, d.epoch = s.slot.epoch → slot.state = .writersReady)
    (hworking : ∀ j ∈ jobs, j.epoch = s.slot.epoch → slot.state = .running) :
    Orderly { s with slot, dials, jobs } where
  dials d hd := hepoch ▸ h.dials d (hdials.subset hd)
  dialling d hd heq := hdialling d hd (heq.trans hepoch)
  jobs j hj := hepoch ▸ h.jobs j (hjobs.subset hj)
  working j hj heq := hworking j hj (heq.trans hepoch)
  one := hepoch ▸ hjobs.countP_le.trans h.one

theorem Orderly.no_dials (h : Orderly s) (hstate : s.slot.state ≠ .writersReady) :
    ∀ d ∈ s.dials, d.epoch ≠ s.slot.epoch :=
  fun d hd heq => hstate (h.dialling d hd heq)

theorem Orderly.no_jobs (h : Orderly s) (hstate : s.slot.state ≠ .running) :
    ∀ j ∈ s.jobs, j.epoch ≠ s.slot.epoch :=
  fun j hj heq => hstate (h.working j hj heq)

theorem Orderly.change (h : Orderly s) (halone : s.Alone) (hc : Change s s') : Orderly s' := by
  cases hc with
  | keep hepoch hstate =>
    exact h.move hepoch (.refl _) (.refl _) (fun d hd heq => hstate.trans (h.dialling d hd heq))
      fun j hj heq => hstate.trans (h.working j hj heq)
  | writers hepoch hbefore hafter =>
    have hjobs := h.no_jobs (by rw [hbefore]; decide)
    exact h.move hepoch (.refl _) (.refl _) (fun _ _ _ => hafter)
      fun j hj heq => absurd heq (hjobs j hj)
  | @dial d hstate hcurrent =>
    refine { h with dials := ?_, dialling := fun _ _ _ => hstate }
    exact List.forall_mem_cons.mpr ⟨hcurrent.le, h.dials⟩
  | @readers slot d hepoch hd hcurrent hafter =>
    -- No other dialling of this epoch is left, and no job of it has been started before.
    have hjobs := h.no_jobs (by rw [h.dialling d hd hcurrent]; decide)
    have hothers : ∀ d' ∈ s.dials.erase d, ¬d'.epoch = s.slot.epoch := fun d' hd' =>
      not_of_mem_erase (p := fun d : Dialling => d.epoch = s.slot.epoch) halone hd hcurrent hd'
    exact h.move hepoch List.erase_sublist (.refl _)
      (fun d' hd' heq => absurd heq (hothers d' hd')) fun j hj heq => absurd heq (hjobs j hj)
  | lost d =>
    exact h.move rfl List.erase_sublist (.refl _)
      (fun d' hd' heq => h.dialling d' (List.mem_of_mem_erase hd') heq) h.working
  | @start slot j hepoch hbefore hafter hcurrent =>
    have hdials := h.no_dials (by rw [hbefore]; decide)
    have hjobs := h.no_jobs (by rw [hbefore]; decide)
    have hnone : s.jobs.countP (·.epoch = s.slot.epoch) = 0 :=
      List.countP_eq_zero.mpr fun j hj => by simpa using hjobs j hj
    exact
      { dials := fun d hd => hepoch ▸ h.dials d hd
        dialling := fun d hd heq => absurd (heq.trans hepoch) (hdials d hd)
        jobs := hepoch ▸ List.forall_mem_cons.mpr ⟨hcurrent.le, h.jobs⟩
        working := fun _ _ _ => hafter
        one := by
          simp only [hepoch, List.countP_cons, hnone, hcurrent, decide_true, if_true, Nat.zero_add,
            le_refl] }
  | @finish slot j hepoch hj hcurrent hafter =>
    have hdials := h.no_dials (by rw [h.working j hj hcurrent]; decide)
    have hothers : ∀ j' ∈ s.jobs.erase j, ¬j'.epoch = s.slot.epoch := fun j' hj' =>
      not_of_mem_erase (p := fun j : Job => j.epoch = s.slot.epoch) h.one hj hcurrent hj'
    exact h.move hepoch (.refl _) List.erase_sublist (fun d hd heq => absurd heq (hdials d hd))
      fun j' hj' heq => absurd heq (hothers j' hj')
  | stale j =>
    exact h.move rfl (.refl _) List.erase_sublist h.dialling
      fun j' hj' heq => h.working j' (List.mem_of_mem_erase hj') heq

theorem Orderly.stepped {e : Event} (h : Orderly s) (halone : s.Alone) (hs : Stepped name s e s') :
    Orderly s' := by
  cases hs with
  | reset _ hepoch => exact h.reset hepoch
  | change _ hc => exact h.change halone hc

theorem orderly_run {events : List Event}
    (halone : ∀ es, es <+: events → (run name es).Alone) : Orderly (run name events) := by
  induction events using List.reverseRecOn with
  | nil => exact .init
  | append_singleton events e ih =>
    have h := ih fun es hes => halone es (hes.trans (List.prefix_append _ _))
    rw [run_concat]
    exact h.stepped (halone events (List.prefix_append _ _)) (stepped name _ e)

/-! ## Between two resets -/

/-- A state after the last of those in which a job is started. -/
abbrev Begun (s : Station) : Prop := s.slot.state ∈ [ExecutorState.running, .done, .failed]

/-- The state stays or becomes one of the next, and a job is started only as it becomes running. -/
theorem Orderly.next (h : Orderly s) (hc : Change s s') :
    (s'.slot.state = s.slot.state ∨ s'.slot.state ∈ s.slot.state.next) ∧
      (s'.started = s.started ∨
        s'.started.length = s.started.length + 1 ∧ ¬s.Begun ∧ s'.Begun) := by
  -- Only the commit of a dialling and the end of a job do not look at the state themselves; for those
  -- two the invariant says what it is.
  cases hc with
  | keep _ hstate => exact ⟨.inl hstate, .inl rfl⟩
  | writers _ hbefore hafter =>
    refine ⟨.inr ?_, .inl rfl⟩
    rw [hbefore, hafter]
    decide
  | dial | lost | stale => exact ⟨.inl rfl, .inl rfl⟩
  | readers _ hd hcurrent hafter =>
    refine ⟨.inr ?_, .inl rfl⟩
    rw [h.dialling _ hd hcurrent, hafter]
    decide
  | start _ hbefore hafter =>
    refine ⟨.inr ?_, .inr ⟨rfl, ?_, ?_⟩⟩
    · rw [hbefore, hafter]
      decide
    · rw [Begun, hbefore]
      decide
    · rw [Begun, hafter]
      decide
  | finish _ hj hcurrent hafter =>
    refine ⟨.inr ?_, .inl rfl⟩
    rwa [h.working _ hj hcurrent]

/-- What has come of a station in the course of some events without a reset. -/
structure Onward (s s' : Station) : Prop where
  forward : s.slot.state.Forward s'.slot.state
  once : s'.started = s.started ∨ s'.started.length = s.started.length + 1 ∧ s'.Begun

theorem Begun.next {x y : ExecutorState} (hx : x ∈ [ExecutorState.running, .done, .failed])
    (h : y = x ∨ y ∈ x.next) : y ∈ [ExecutorState.running, .done, .failed] := by
  revert hx h
  cases x <;> cases y <;> decide

theorem Onward.change {s₀ : Station} (ho : Onward s₀ s) (h : Orderly s) (hc : Change s s') :
    Onward s₀ s' := by
  obtain ⟨hstate, hstarted⟩ := h.next hc
  constructor
  · rcases hstate with hsame | hnext
    · exact hsame ▸ ho.forward
    · exact ho.forward.tail hnext
  · rcases ho.once with hnone | ⟨hlength, hbegun⟩
    · rw [← hnone]
      exact hstarted.imp_right fun ⟨hlength, _, hbegun⟩ => ⟨hlength, hbegun⟩
    · rcases hstarted with hsame | ⟨_, hnot, _⟩
      · exact .inr ⟨hsame ▸ hlength, Begun.next hbegun hstate⟩
      · exact absurd hbegun hnot

theorem onward_run {before during : List Event} (hbroken : Unbroken name before during)
    (halone : ∀ es, es <+: before ++ during → (run name es).Alone) :
    Onward (run name before) (run name (before ++ during)) := by
  induction during using List.reverseRecOn with
  | nil => exact ⟨by rw [List.append_nil], .inl (by rw [List.append_nil])⟩
  | append_singleton during e ih =>
    have hfront : during <+: during ++ [e] := List.prefix_append _ _
    have hlonger : before ++ during <+: before ++ (during ++ [e]) :=
      (List.prefix_append_right_inj _).mpr hfront
    have ho := ih (fun front e' h => hbroken front e' (h.trans hfront))
      fun es hes => halone es (hes.trans hlonger)
    have horderly := orderly_run fun es hes => halone es (hes.trans hlonger)
    rw [← List.append_assoc, run_concat]
    exact ho.change horderly
      ((stepped name _ e).change_of_resets (hbroken during e (List.prefix_refl _)))

/-- From one reset to the next the state only goes forward and the node is started at most once, if no
request to set up the inputs comes while another one for the same instruction is under way. -/
theorem forwardOnly_of_alone {before during : List Event} (hbroken : Unbroken name before during)
    (halone : ∀ es, es <+: before ++ during → (run name es).Alone) :
    ForwardOnly name before during := by
  obtain ⟨hforward, honce⟩ := onward_run hbroken halone
  refine ⟨hforward, ?_⟩
  rcases honce with hsame | ⟨hlength, _⟩
  · exact hsame ▸ Nat.le_succ _
  · exact hlength.le

section Repeated

/-- A table is read where it is wanted. -/
def lookup : OperatorNode where
  location := ⟨"reader", "host", 1⟩
  operator := .scan
    { catalog := "c", schema := "s", table := "t", columns := { columns := [⟨"n", .int64⟩] },
      partitions := [0], filters := [] }

def lookupInstruction : Instruction := .ofNode 7 "c" "s" lookup

/-- Two clients ask for the same, one after the other. -/
def repeated : List Event :=
  [.request .setupWriters 1, .request .setupWriters 2, .request .setupReaders 1,
    .dialled ⟨1, 7, []⟩ [], .request .setupReaders 2, .request .run 1, .request .run 2,
    .ended ⟨1, lookup, [], []⟩ (.ok none)]

theorem lookupInstruction_node : lookupInstruction.node = .ok lookup :=
  Instruction.node_ofNode (by decide +kernel) _ _ _

theorem run_lookup (events : List Event) : run "reader" (Event.sent lookupInstruction :: events) =
    events.foldl (step "reader") (given 7 lookup) :=
  run_sent lookupInstruction_node rfl events

theorem forwardOnly_repeated :
    Unbroken "reader" [Event.sent lookupInstruction] repeated ∧
    (∀ es, es <+: Event.sent lookupInstruction :: repeated → (run "reader" es).Alone) ∧
    ForwardOnly "reader" [Event.sent lookupInstruction] repeated := by
  have hbroken : Unbroken "reader" [Event.sent lookupInstruction] repeated :=
    unbroken_of_not_mayReset (by decide)
  have halone : ∀ es, es <+: Event.sent lookupInstruction :: repeated → (run "reader" es).Alone :=
    alone_of_inits lookupInstruction_node rfl (by decide +kernel)
  exact ⟨hbroken, halone, forwardOnly_of_alone hbroken halone⟩

end Repeated

/-! ## Two requests that overlap -/

section Overlap

/-- Both requests to set up the inputs begin before either goes on, and the node runs in between. -/
def overlap (i : Instruction) (inputs : List Location) (streams streams' : List StreamId) :
    List Event :=
  [.request .setupWriters 0, .request .setupReaders 1, .request .setupReaders 2,
    .dialled ⟨1, i.task, inputs⟩ streams, .request .run 1, .dialled ⟨1, i.task, inputs⟩ streams',
    .request .run 2]

theorem unbroken_overlap (before : List Event) (i : Instruction) (inputs : List Location)
    (streams streams' : List StreamId) :
    Unbroken name before (overlap i inputs streams streams') :=
  unbroken_of_not_mayReset (by simp [overlap, mayReset])

/-- The second of them takes back any node without outputs that already runs, and it starts again. -/
theorem run_overlap {i : Instruction} {node : OperatorNode} (hnode : i.node = .ok node)
    (hname : node.location.name = name) (houtputs : node.outputs = [])
    (streams streams' : List StreamId) :
    (run name (Event.sent i :: (overlap i node.inputs streams streams').take 5)).slot.state =
        .running ∧
      (run name (Event.sent i :: (overlap i node.inputs streams streams').take 6)).slot.state =
        .readersReady ∧
      (run name (Event.sent i :: overlap i node.inputs streams streams')).started.length = 2 := by
  simp only [run_sent hnode hname]
  simp [given, overlap, step, answer, adopt, Slot.setupWriters, Slot.beginReaders,
    Slot.commitReaders, Slot.start, Slot.requireState, Slot.outputs, Slot.inputs, houtputs, bind,
    Except.bind, pure, Except.pure]

theorem not_forwardOnly_lookup : ¬∀ (name : String) (before during : List Event),
    Unbroken name before during → ForwardOnly name before during := by
  intro h
  have hstarted : (run "reader" (Event.sent lookupInstruction ::
      overlap lookupInstruction [] [] [])).started.length = 2 :=
    (run_overlap lookupInstruction_node rfl rfl [] []).2.2
  have honce := (h "reader" [Event.sent lookupInstruction] (overlap lookupInstruction [] [] [])
    (unbroken_overlap _ _ _ _ _)).once
  rw [List.singleton_append, hstarted, run_lookup []] at honce
  exact absurd honce (by decide)

end Overlap

end Station
end QueryCluster
