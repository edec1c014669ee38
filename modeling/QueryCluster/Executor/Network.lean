import QueryCluster.Executor.Slot
import QueryCluster.Graph.Run
import QueryCluster.Message.Results

/-!
# Networks of executors

Executors that reach one another, the connections between them and the jobs that they have started.
A job ends when its inputs are complete, or when what has arrived is enough to make it fail; what it
writes to a connection that is still open arrives there. A connection is closed when an executor
lets it go.
-/
namespace QueryCluster

structure Connection where
  sent : Bytes := []
  closed : Bool := false
  deriving DecidableEq, Repr

/-- An executor at its place. -/
structure Worker where
  location : Location
  workplace : Workplace
  /-- Tables whose rows are not at hand yet. -/
  held : List String := []
  slot : Slot := {}

/-- A party that gives every reader the same answer, and may abort a task first. -/
structure Peer where
  location : Location
  reply : Bytes
  abort : Option (String × TaskId) := none
  requests : List (TaskId × String) := []

inductive Party where
  | worker (i : Nat)
  | peer (i : Nat)
  deriving DecidableEq, Repr

def Worker.release (w : Worker) : Worker := { w with held := [] }

/-- What a scan has written that waits for its table; `none` for a job that does not wait. -/
def Worker.waiting? (w : Worker) (j : Job) : Option (List Bytes) :=
  match j.node.operator with
  | .scan part =>
    if part.table ∈ w.held ∧ part.partitions ≠ [] ∧ j.ingress = [] then
      if j.node.isRoot then some []
      else
        match (j.node.router w.workplace.batchRows j.egress.length).writeSchema part.columns.withoutKeys with
        | (none, r) => some (r.outputs.map (·.sent))
        | (some _, _) => none
    else none
  | _ => none

/-- At which locations executors are found. -/
inductive Addressing where
  /-- At none. -/
  | isolated
  /-- Each at its own. -/
  | location
  /-- At the addresses of this host, by their ports. -/
  | port
  deriving DecidableEq, Repr

/-- Whether a host is this one: `127.0.0.0` to `127.0.0.255`, or `0.0.0.0` for all addresses. -/
def isThisHost (host : String) : Bool :=
  host == "0.0.0.0" || (List.range 256).any fun n => host == "127.0.0." ++ toString n

structure Network where
  addressing : Addressing := .location
  workers : List Worker := []
  peers : List Peer := []
  connections : List Connection := []
  /-- Started jobs, each with the number of its executor. -/
  jobs : List (Nat × Job) := []

namespace Network

/-- Who answers at a location. -/
def reach (n : Network) (l : Location) : Option Party :=
  let worker (p : Worker → Bool) : Option Party := (n.workers.findIdx? p).map .worker
  let peer := (n.peers.findIdx? fun p => p.location = l).map .peer
  match n.addressing with
  | .isolated => peer
  | .location => (worker fun w => w.location = l).or peer
  | .port => if isThisHost l.host && l.port ≠ 0 then worker fun w => w.location.port = l.port else none

/-- Adds an executor that listens at its address. No two listen at the same port. -/
def listen (n : Network) (w : Worker) : Except ExecutorError Network :=
  let port := w.location.port
  if !isThisHost w.location.host || (port ≠ 0 && n.workers.any fun v => v.location.port = port) then
    .error .io
  else .ok { n with workers := n.workers ++ [w] }

def slot (n : Network) (i : Nat) : Slot := (n.workers[i]?.map (·.slot)).getD {}

def close (n : Network) (streams : List StreamId) : Network :=
  { n with connections := n.connections.zipIdx.map fun (c, id) =>
      if id ∈ streams then { c with closed := true } else c }

/-- Gives an executor its next slot and closes the connections that it no longer holds. -/
def put (n : Network) (i : Nat) (s : Slot) : Network :=
  let lost := (n.slot i).live.filter (· ∉ s.live)
  { n.close lost with workers := n.workers.modify i ({ · with slot := s }) }

/-- Does one step on the slot of an executor. -/
def update (n : Network) (i : Nat) (step : Slot → Except ExecutorError Slot) :
    Except ExecutorError Unit × Network :=
  match step (n.slot i) with
  | .error e => (.error e, n)
  | .ok s => (.ok (), n.put i s)

def connect (n : Network) (c : Connection) : Network := { n with connections := n.connections ++ [c] }

/-! ## Jobs -/

def sent (n : Network) (id : StreamId) : Bytes := (n.connections[id]?.map (·.sent)).getD []

def isClosed (n : Network) (id : StreamId) : Bool := (n.connections[id]?.map (·.closed)).getD true

/-- What has arrived for a job. An input that is still open breaks off behind it. -/
def feeds (n : Network) (j : Job) : List Feed :=
  j.ingress.map fun id =>
    Feed.ofStream { source := Source.ofBytes (n.sent id) ++ if n.isClosed id then [] else [.broken] }

/-- Complete inputs are read first. -/
def arrival (n : Network) (j : Job) (feeds : List Feed) : List Nat :=
  (feeds.zip j.ingress).zipIdx.flatMap fun ((f, id), k) =>
    if n.isClosed id then List.replicate (f.splits.length + 1) k else []

/-- Lets what was written so far arrive on the connections that are open. -/
def deliver (n : Network) (streams : List StreamId) (sent : List Bytes) : Network :=
  { n with connections := n.connections.zipIdx.map fun (c, id) =>
      match (streams.zip sent).lookup id with
      | some bytes => if c.closed then c else { c with sent := bytes }
      | none => c }

/-- What a job comes to; `none` for one that waits for a table or for the rest of an input. -/
def attempt? (n : Network) (w : Worker) (j : Job) : Option Execution :=
  if (w.waiting? j).isSome then none
  else
    let feeds := n.feeds j
    let e := j.node.execute w.workplace (n.arrival j feeds) feeds j.egress.length
    match e.outcome with
    | .error (.split .io) => none
    | _ => some e

/-- Ends a job. Nothing can be written to a reader that is gone. -/
def finish (n : Network) (i : Nat) (j : Job) (e : Execution) : Network :=
  let outcome :=
    if j.egress.any n.isClosed && e.sent.any (!·.isEmpty) then .error (.split .io)
    else e.outcome.map (·.2)
  let n := n.deliver j.egress e.sent
  n.put i ((n.slot i).complete j.epoch outcome)

/-- Takes the first job that can end out of a list. -/
def nextJob (n : Network) : List (Nat × Job) → Option ((Nat × Job × Execution) × List (Nat × Job))
  | [] => none
  | (i, j) :: rest =>
    match n.workers[i]?.bind (n.attempt? · j) with
    | some e => some ((i, j, e), rest)
    | none => (n.nextJob rest).map fun (found, others) => (found, (i, j) :: others)

def settleWithin : (fuel : Nat) → Network → Network
  | 0, n => n
  | fuel + 1, n =>
    match n.nextJob n.jobs with
    | none => n
    | some ((i, j, e), others) => settleWithin fuel ({ n with jobs := others }.finish i j e)

/-- Ends all jobs that can end. -/
def settle (n : Network) : Network := settleWithin n.jobs.length n

/-- All tables are at hand from now on. -/
def release (n : Network) : Network :=
  { n with workers := n.workers.map Worker.release }.settle

/-! ## Streams -/

/-- Asks a party for the stream of a task to a reader. The connection is the number given back. -/
def dial (n : Network) (task : TaskId) (reader writer : Location) :
    Except RpcError StreamId × Network :=
  let id := n.connections.length
  match n.reach writer with
  | none => (.error .io, n)
  | some (.worker i) =>
    match n.update i (·.attach task reader id) with
    | (.error e, n) => (.error (.remote e.message), n)
    | (.ok _, n) => (.ok id, n.connect {})
  | some (.peer k) =>
    match n.peers[k]? with
    | none => (.error .io, n)
    | some p =>
      let asked := { p with requests := p.requests ++ [(task, reader.name)] }
      let n := { n with peers := n.peers.set k asked }
      let n := match p.abort with
        | none => n
        | some (name, task) =>
          match n.workers.findIdx? fun w => w.location.name = name with
          | some i => (n.update i (·.abort task)).2
          | none => n
      match Message.read Response.ofContent? (Source.ofBytes p.reply) with
      | (.error e, _) => (.error e, n)
      | (.ok r, rest) =>
        match r.toAck with
        | .error e => (.error e, n)
        | .ok _ => (.ok id, n.connect { sent := Source.bytes rest, closed := true })

/-- Opens inputs in order. After a failure the ones already opened are closed. -/
def dialAll (task : TaskId) (reader : Location) :
    (opened : List StreamId) → List Location → Network →
      Except ExecutorError (List StreamId) × Network
  | opened, [], n => (.ok opened, n)
  | opened, l :: ls, n =>
    match n.dial task reader l with
    | (.error e, n) => (.error (.peer l e), n.close opened)
    | (.ok id, n) => dialAll task reader (opened ++ [id]) ls n

def setupReaders (n : Network) (i : Nat) (self : Location) : Except ExecutorError Unit × Network :=
  match (n.slot i).beginReaders with
  | .error e => (.error e, n)
  | .ok d =>
    match dialAll d.task self [] d.inputs n with
    | (.error e, n) => (.error e, n)
    | (.ok streams, n) =>
      match (n.slot i).commitReaders d.epoch streams with
      | .error e => (.error e, n.close streams)
      | .ok s => (.ok (), n.put i s)

def start (n : Network) (i : Nat) (w : Worker) : Except ExecutorError Unit × Network :=
  match (n.slot i).start with
  | .error e => (.error e, n)
  | .ok (s, j) =>
    let n := n.put i s
    (.ok (), { n.deliver j.egress ((w.waiting? j).getD []) with jobs := n.jobs ++ [(i, j)] })

/-! ## Requests -/

/-- Does what a request asks of an executor. -/
def control (n : Network) (i : Nat) (w : Worker) : Request → Except ExecutorError Response × Network
  | .sendInstruction t => acknowledge (n.update i (·.receive w.location.name t))
  | .setupWriters => acknowledge (n.update i Slot.setupWriters)
  | .setupReaders => acknowledge (n.setupReaders i w.location)
  | .run => acknowledge (n.start i w)
  | .abort task => acknowledge (n.update i (·.abort task))
  | .status => (.ok (.status w.slot.report), n)
  | .fetchResults task =>
    ((w.slot.fetchResults task).map fun s => .results (encodeResults s w.workplace.batchRows), n)
  | .openStream _ _ => (.error (.notAllowed "open_stream" .control), n)
where
  acknowledge (r : Except ExecutorError Unit × Network) : Except ExecutorError Response × Network :=
    (r.1.map fun _ => .ack, r.2.settle)

/-- The answer to a request; a fault becomes its text. -/
def handle (n : Network) (i : Nat) (w : Worker) (r : Request) : Response × Network :=
  match n.control i w r with
  | (.ok response, n) => (response, n)
  | (.error e, n) => (.error e.message, n)

/-- A request and its answer over a connection of their own. -/
def call (n : Network) (location : Location) (r : Request) : Except RpcError Response × Network :=
  match n.reach location with
  | some (.worker i) =>
    match n.workers[i]? with
    | some w => let (response, n) := n.handle i w r; (.ok response, n)
    | none => (.error .io, n)
  | _ => (.error .io, n)

/-- Answers the requests in a source, up to the first that cannot be read or that asks for a
stream. -/
def serveWithin (i : Nat) : (fuel : Nat) → Source → Network → List Response × Network
  | 0, _, n => ([], n)
  | fuel + 1, s, n =>
    match Message.read Request.ofContent? s, n.workers[i]? with
    | (.ok (.openStream task reader), _), _ =>
      match n.update i (·.attach task reader n.connections.length) with
      | (.error e, n) => ([.error e.message], n)
      | (.ok _, n) => ([.ack], n.connect {})
    | (.ok r, rest), some w =>
      let (response, n) := n.handle i w r
      let (responses, n) := serveWithin i fuel rest n
      (response :: responses, n)
    | _, _ => ([], n)

def serve (n : Network) (i : Nat) (bytes : Bytes) : List Response × Network :=
  serveWithin i bytes.length (Source.ofBytes bytes) n

end Network
end QueryCluster
