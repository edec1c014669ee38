import QueryCluster.Content
import QueryCluster.Executor.Status
import QueryCluster.Text.Quoted

/-!
# Messages between the coordinator and executors

A request and a response are records tagged by their kind.
-/
namespace QueryCluster

namespace Content

def fields (entries : List (String × Content)) : Content :=
  .map (entries.map fun (k, v) => (.text k, v))

def ofOption {α : Type} (f : α → Content) : Option α → Content
  | some a => f a
  | none => .null

/-- The entry under a key, which stands once, and the other entries. -/
def takeTag (key : String) : Option String → List (Content × Content) → List (Content × Content) →
    Option (String × List (Content × Content))
  | tag, others, [] => tag.map fun t => (t, others.reverse)
  | tag, others, (.text k, v) :: rest =>
    if k == key then
      match tag, v with
      | none, .text t => takeTag key (some t) others rest
      | _, _ => none
    else takeTag key tag ((.text k, v) :: others) rest
  | tag, others, e :: rest => takeTag key tag (e :: others) rest

/-- A tagged record: its tag and its fields. -/
def tagged? (key : String) : Content → Option (String × Content)
  | .map entries => (takeTag key none [] entries).map fun (t, rest) => (t, .map rest)
  | .list (.text t :: items) => some (t, .list items)
  | _ => none

/-- A record without fields; a map may hold anything. -/
def isBare : Content → Bool
  | .map _ => true
  | .list items => items.isEmpty
  | _ => false

def taskId? (c : Content) : Option TaskId := c.natural?

end Content

def Location.content (l : Location) : Content :=
  .fields [("name", .text l.name), ("host", .text l.host), ("port", .unsigned l.port.toUInt64)]

def Location.ofContent? (c : Content) : Option Location := do
  let f ← Fields.ofContent? ["name", "host", "port"] c
  return ⟨← f.required 0 Content.text?, ← f.required 1 Content.text?, ← f.required 2 Content.port?⟩

def Instruction.content (i : Instruction) : Content :=
  .fields [("task_id", .unsigned i.task), ("node_type", .text i.type.name),
    ("catalog", .text i.catalog), ("schema", .text i.schema), ("encoded_node", .text i.encodedNode)]

def Instruction.ofContent? (c : Content) : Option Instruction := do
  let f ← Fields.ofContent? ["task_id", "node_type", "catalog", "schema", "encoded_node"] c
  return {
    task := ← f.required 0 Content.taskId?
    type := ← f.required 1 (Content.choice? Content.isEmpty OperatorType.ofName?)
    catalog := ← f.required 2 Content.text?
    schema := ← f.required 3 Content.text?
    encodedNode := ← f.required 4 Content.text? }

namespace StatusReport

def fieldNames : List String := ["task_id", "state", "error"]

def entries (r : StatusReport) : List (String × Content) :=
  [("task_id", .ofOption .unsigned r.task), ("state", .text r.state.name),
    ("error", .ofOption .text r.error)]

def content (r : StatusReport) : Content := .fields r.entries

def ofContent? (c : Content) : Option StatusReport := do
  let f ← Fields.ofContent? fieldNames c
  return {
    task := ← f.nullable 0 Content.taskId?
    state := ← f.required 1 (Content.choice? Content.isEmpty ExecutorState.ofName?)
    error := ← f.nullable 2 Content.text? }

def literal (r : StatusReport) : String :=
  "StatusReport \x7b task_id: " ++ TaskId.optionalLiteral r.task ++ ", state: " ++ r.state.literal ++
    ", error: " ++
    (match r.error with
      | some s => "Some(" ++ Text.quoted s ++ ")"
      | none => "None") ++ " \x7d"

end StatusReport

inductive Request where
  | sendInstruction (instruction : Instruction)
  | setupWriters
  | setupReaders
  | run
  | abort (task : TaskId)
  | status
  | fetchResults (task : TaskId)
  /-- A reader asks for the rows that this executor will write to it. -/
  | openStream (task : TaskId) (reader : Location)
  deriving DecidableEq, Repr

namespace Request

def name : Request → String
  | sendInstruction _ => "send_instruction"
  | setupWriters => "setup_writers"
  | setupReaders => "setup_readers"
  | run => "run"
  | abort _ => "abort"
  | status => "status"
  | fetchResults _ => "fetch_results"
  | openStream _ _ => "open_stream"

def entries : Request → List (String × Content)
  | sendInstruction i => [("instruction", i.content)]
  | abort task => [("task_id", .unsigned task)]
  | fetchResults task => [("task_id", .unsigned task)]
  | openStream task reader => [("task_id", .unsigned task), ("reader", reader.content)]
  | _ => []

def content (r : Request) : Content := .fields (("op", .text r.name) :: r.entries)

def bare? (r : Request) (c : Content) : Option Request := if c.isBare then some r else none

def ofContent? (c : Content) : Option Request := do
  let (op, c) ← c.tagged? "op"
  match op with
  | "send_instruction" =>
    let f ← Fields.ofContent? ["instruction"] c
    return sendInstruction (← f.required 0 Instruction.ofContent?)
  | "setup_writers" => bare? setupWriters c
  | "setup_readers" => bare? setupReaders c
  | "run" => bare? run c
  | "abort" => return abort (← (← Fields.ofContent? ["task_id"] c).required 0 Content.taskId?)
  | "status" => bare? status c
  | "fetch_results" =>
    return fetchResults (← (← Fields.ofContent? ["task_id"] c).required 0 Content.taskId?)
  | "open_stream" =>
    let f ← Fields.ofContent? ["task_id", "reader"] c
    return openStream (← f.required 0 Content.taskId?) (← f.required 1 Location.ofContent?)
  | _ => none

end Request

inductive Response where
  | ack
  | status (report : StatusReport)
  /-- A complete split stream as text. -/
  | results (stream : String)
  | error (message : String)
  deriving DecidableEq, Repr

namespace Response

def content : Response → Content
  | ack => .fields [("type", .text "ack")]
  | status report => .fields (("type", .text "status") :: report.entries)
  | results stream => .fields [("type", .text "results"), ("stream", .text stream)]
  | error message => .fields [("type", .text "error"), ("message", .text message)]

def ofContent? (c : Content) : Option Response := do
  let (type, c) ← c.tagged? "type"
  match type with
  | "ack" => if c.isBare then return ack else none
  | "status" => return status (← StatusReport.ofContent? c)
  | "results" => return results (← (← Fields.ofContent? ["stream"] c).required 0 Content.text?)
  | "error" => return error (← (← Fields.ofContent? ["message"] c).required 0 Content.text?)
  | _ => none

def literal : Response → String
  | ack => "Ack"
  | status report => "Status(" ++ report.literal ++ ")"
  | results stream => "Results \x7b stream: " ++ Text.quoted stream ++ " \x7d"
  | error message => "Error \x7b message: " ++ Text.quoted message ++ " \x7d"

end Response
end QueryCluster
