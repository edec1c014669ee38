import QueryCluster.Graph.Basic
import QueryCluster.Operator.Emission
import QueryCluster.Stream.Writer
import QueryCluster.Value.Key

/-!
# Where operators write

The root of a graph collects all rows in one split. Every other node writes one stream for each of
its outputs; its partitioning decides which rows go where.
-/
namespace QueryCluster

structure Collector where
  result : Option Split := none
  finished : Bool := false
  deriving DecidableEq, Repr

namespace Collector

def writeSchema (c : Collector) (schema : Schema) : Collector := { c with result := some { schema } }

def writeSplit (c : Collector) (s : Split) : Except OperatorError Collector :=
  match c.result with
  | none => .error (.execution .rowsBeforeSchema)
  | some all => (all.append s).mapError .ofShape |>.map fun all => { c with result := some all }

def finish (c : Collector) : Collector := { c with finished := true }

end Collector

/-- One output of a router: its writer until it is finished, and what was sent. -/
structure Output where
  writer : Option StreamWriter
  sent : Bytes := []
  deriving DecidableEq, Repr

structure Router where
  outputs : List Output
  partitioning : Partitioning
  keyColumns : List Nat := []
  /-- The output whose turn it is. -/
  turn : Nat := 0
  deriving DecidableEq, Repr

namespace Router

def start (outputs : Nat) (partitioning : Partitioning) (batchRows : Nat) : Router :=
  { outputs := List.replicate outputs { writer := some (StreamWriter.start batchRows) }, partitioning }

/-- Treats the outputs in order, up to the first fault. -/
def treat (f : Nat → Output → Except OperatorError Output) :
    Nat → List Output → Option OperatorError × List Output
  | _, [] => (none, [])
  | i, o :: os =>
    match f i o with
    | .error e => (some e, o :: os)
    | .ok o =>
      let (fault, os) := treat f (i + 1) os
      (fault, o :: os)

def send (write : StreamWriter → Except SplitError (StreamWriter × Bytes)) (i : Nat) (o : Output) :
    Except OperatorError Output :=
  match o.writer with
  | none => .error (.execution (.outputFinished i))
  | some w => match write w with
    | .error e => .error (.split e)
    | .ok (w, bs) => .ok { writer := some w, sent := o.sent ++ bs }

/-- Applies what is done to each output and tells the first fault. -/
def onOutputs (r : Router) (f : Nat → Output → Except OperatorError Output) :
    Option OperatorError × Router :=
  let (fault, outputs) := treat f 0 r.outputs
  (fault, { r with outputs })

def keyColumn (schema : Schema) (name : String) : Except OperatorError Nat :=
  match schema.indexOf? name with
  | some i => .ok i
  | none => .error (.mismatch (.partitionKey name))

def columnsOf (p : Partitioning) (schema : Schema) : Except OperatorError (List Nat) :=
  match p with
  | .hash keys => keys.mapM (keyColumn schema)
  | _ => .ok []

def writeSchema (r : Router) (schema : Schema) : Option OperatorError × Router :=
  match columnsOf r.partitioning schema with
  | .error e => (some e, r)
  | .ok keyColumns => { r with keyColumns }.onOutputs (send (·.writeSchema schema))

def keyOf (r : Router) (row : Row) : List Value :=
  r.keyColumns.map fun c => row.values[c]?.getD .null

/-- The rows of a split that belong to an output. -/
def bucket (r : Router) (s : Split) (i : Nat) : Split :=
  let own := s.rows.filter fun row => hashPartition (r.keyOf row) r.outputs.length == i
  { s with rows := own.map fun row =>
      Row.withKeys row.values ((List.range s.schema.keys.length).map row.key?) }

def sendTo (r : Router) (target : Nat) (s : Split) : Option OperatorError × Router :=
  r.onOutputs fun i o => if i = target then send (·.writeSplit s) i o else .ok o

/-- Empty splits are not sent. -/
def writeSplit (r : Router) (s : Split) : Option OperatorError × Router :=
  if s.isEmpty || r.outputs.isEmpty then (none, r)
  else match r.partitioning with
    | .single | .oneToOne => r.sendTo 0 s
    | .roundRobin => { r with turn := (r.turn + 1) % r.outputs.length }.sendTo r.turn s
    | .hash _ => r.onOutputs fun i o =>
      let own := r.bucket s i
      if own.isEmpty then .ok o else send (·.writeSplit own) i o

/-- Ends the streams that are still open. An output that cannot end is closed all the same. -/
def finishFrom : List Output → Option OperatorError × List Output
  | [] => (none, [])
  | o :: os =>
    match o.writer with
    | none =>
      let (fault, os) := finishFrom os
      (fault, o :: os)
    | some w => match w.finish with
      | .error e => (some (.split e), { o with writer := none } :: os)
      | .ok bs =>
        let (fault, os) := finishFrom os
        (fault, { writer := none, sent := o.sent ++ bs } :: os)

def finish (r : Router) : Option OperatorError × Router :=
  let (fault, outputs) := finishFrom r.outputs
  (fault, { r with outputs })

def writeSplits : Router → List Split → Option OperatorError × Router
  | r, [] => (none, r)
  | r, s :: rest =>
    match r.writeSplit s with
    | (some e, r) => (some e, r)
    | (none, r) => writeSplits r rest

end Router

namespace Emission

/-- The rows of a run that went well, as one split. -/
def collect (e : Emission) : Except OperatorError (Stats × Split) := do
  let start : Collector := match e.schema with
    | some schema => ({} : Collector).writeSchema schema
    | none => {}
  let c ← e.splits.foldlM Collector.writeSplit start
  let stats ← e.outcome
  match c.result with
  | some s => return (stats, s)
  | none => throw (.execution .rowsBeforeSchema)

/-- Sends a run over a router; the streams end only if it went well. The first fault counts, be it
of the run or of an output. -/
def send (e : Emission) (r : Router) : Except OperatorError Stats × Router :=
  let (fault, r) := match e.schema with
    | some schema => r.writeSchema schema
    | none => (none, r)
  match fault with
  | some f => (.error f, r)
  | none =>
    match r.writeSplits e.splits, e.outcome with
    | (some f, r), _ => (.error f, r)
    | (none, r), .error f => (.error f, r)
    | (none, r), .ok stats =>
      match r.finish with
      | (some f, r) => (.error f, r)
      | (none, r) => (.ok stats, r)

end Emission
end QueryCluster
