import Mathlib.Data.List.Forall2
import QueryCluster.Proofs.Json.RoundTrip
import QueryCluster.Proofs.Stream.Deliveries

/-!
# Messages read back

A record is read from what it is written as, in the order of its fields, and a tagged record by its tag. So
every request and every response comes back from its text, and reading it takes the bytes that were written
for it and none behind them.
-/
namespace QueryCluster

open Json (Exact named)

/-! ## Records -/

theorem Content.fields_eq_map (entries : List (String × Content)) : fields entries = .map (named entries) :=
  rfl

namespace Fields

theorem put_next {front : List String} {name : String} {done : List Content} (back : List String)
    (value : Content) (hnew : name ∉ front) (hdone : done.length = front.length) :
    put (front ++ name :: back) (done.map some ++ (name :: back).map fun _ => none) (.text name, value) =
      some ((done ++ [value]).map some ++ back.map fun _ => none) := by
  have hindex : (front ++ name :: back).idxOf? name = some front.length := by
    have hfront : front.findIdx? (· == name) = none := by
      rw [List.findIdx?_eq_none_iff]
      rintro other hother
      have hother : other ≠ name := by
        rintro rfl
        exact hnew hother
      simpa using hother
    rw [List.idxOf?, List.findIdx?_append, hfront]
    simp [List.findIdx?_cons]
  simp only [put, Content.fieldIndex?, hindex]
  simp [← hdone]

theorem foldlM_put {front todo : List String} {done values : List Content}
    (hnodup : (front ++ todo).Nodup) (hdone : done.length = front.length)
    (hvalues : values.length = todo.length) :
    (named (todo.zip values)).foldlM (put (front ++ todo)) (done.map some ++ todo.map fun _ => none) =
      some ((done ++ values).map some) := by
  induction todo generalizing front done values with
  | nil =>
    obtain rfl := List.length_eq_zero_iff.mp hvalues
    simp [named]
  | cons name todo ih =>
    obtain ⟨value, values, rfl⟩ := List.exists_cons_of_length_eq_add_one hvalues
    have hnew : name ∉ front := by
      rw [List.nodup_append] at hnodup
      intro hmem
      exact hnodup.2.2 name hmem name List.mem_cons_self rfl
    have hput := put_next todo value hnew hdone
    have hlonger : (done ++ [value]).length = (front ++ [name]).length := by simp [hdone]
    have hrest := ih (by simpa using hnodup) hlonger (by simpa using hvalues)
    rw [List.append_assoc, List.singleton_append, List.append_assoc, List.singleton_append] at hrest
    simp only [named, List.zip_cons_cons, List.map_cons, List.foldlM_cons]
    rw [← List.map_cons (f := fun _ => none) (a := name), hput]
    exact hrest

/-- A record whose fields are written in their order has all of them. -/
theorem ofContent?_fields (names : List String) (values : List Content) (hnodup : names.Nodup)
    (hvalues : values.length = names.length) :
    ofContent? names (.fields (names.zip values)) = some ⟨values.map some, false⟩ := by
  have hfold : (named (names.zip values)).foldlM (put names) (names.map fun _ => none) =
      some (values.map some) := @foldlM_put [] names [] values hnodup rfl hvalues
  rw [Content.fields_eq_map, ofContent?, hfold]
  rfl

end Fields

namespace Content

theorem takeTag_others {key : String} {entries : List (String × Content)}
    (hnew : ∀ e ∈ entries, e.1 ≠ key) (tag : String) (others : List (Content × Content)) :
    takeTag key (some tag) others (named entries) = some (tag, others.reverse ++ named entries) := by
  induction entries generalizing others with
  | nil => simp [named, takeTag]
  | cons e entries ih =>
    obtain ⟨he, hentries⟩ := List.forall_mem_cons.mp hnew
    have hrest := ih hentries ((.text e.1, e.2) :: others)
    simp only [named, List.map_cons] at hrest ⊢
    rw [takeTag, if_neg (by simpa using he), hrest]
    · simp
    · simp

/-- A tag in front of fields of other names. -/
theorem tagged?_fields {key : String} {entries : List (String × Content)} (tag : String)
    (hnew : ∀ e ∈ entries, e.1 ≠ key) :
    tagged? key (.fields ((key, .text tag) :: entries)) = some (tag, .fields entries) := by
  have htake := takeTag_others hnew tag []
  simp only [fields_eq_map, tagged?, named, List.map_cons, takeTag]
  rw [if_pos (by simp)]
  simpa [named] using htake

theorem exact_fields {depth : Nat} {entries : List (String × Content)}
    (h : ∀ e ∈ entries, Exact depth e.2) : Exact (depth + 1) (.fields entries) :=
  .map h

theorem port?_unsigned (port : UInt16) : port? (.unsigned port.toUInt64) = some port := by
  have hrange : port.toNat < UInt16.size := port.toNat_lt
  simp [port?, natural?, hrange]

end Content

/-! ## Parts of messages -/

variable {depth : Nat}

theorem Location.exact_content (l : Location) : Exact (depth + 1) l.content := by
  apply Content.exact_fields
  simp [Exact.text, Exact.unsigned]

theorem Location.ofContent?_content (l : Location) : ofContent? l.content = some l := by
  have hfields := Fields.ofContent?_fields ["name", "host", "port"]
    [.text l.name, .text l.host, .unsigned l.port.toUInt64] (by decide) rfl
  have hport := Content.port?_unsigned l.port
  unfold ofContent? content
  simp only [List.zip_cons_cons, List.zip_nil_right] at hfields
  rw [hfields]
  simp [Fields.required, Fields.at?, Content.text?, hport]

theorem OperatorType.ofName?_name (t : OperatorType) : ofName? t.name = some t := by
  cases t <;> decide

theorem ExecutorState.ofName?_name (x : ExecutorState) : ofName? x.name = some x := by
  cases x <;> decide

theorem Instruction.exact_content (i : Instruction) : Exact (depth + 1) i.content := by
  apply Content.exact_fields
  simp [Exact.text, Exact.unsigned]

theorem Instruction.ofContent?_content (i : Instruction) : ofContent? i.content = some i := by
  have hfields := Fields.ofContent?_fields
    ["task_id", "node_type", "catalog", "schema", "encoded_node"]
    [.unsigned i.task, .text i.type.name, .text i.catalog, .text i.schema, .text i.encodedNode] (by decide) rfl
  unfold ofContent? content
  simp only [List.zip_cons_cons, List.zip_nil_right] at hfields
  rw [hfields]
  simp [Fields.required, Fields.at?, Content.text?, Content.taskId?, Content.natural?,
    Content.choice?, OperatorType.ofName?_name]

namespace StatusReport

theorem exact_entries (r : StatusReport) : ∀ e ∈ r.entries, Exact depth e.2 := by
  rcases r with ⟨task | task, state, error | error⟩ <;>
    simp [entries, Content.ofOption, Exact.null, Exact.unsigned, Exact.text]

theorem ofContent?_content (r : StatusReport) : ofContent? r.content = some r := by
  have hfields := Fields.ofContent?_fields fieldNames
    [.ofOption .unsigned r.task, .text r.state.name, .ofOption .text r.error]
    (by decide) rfl
  unfold ofContent? content entries
  simp only [fieldNames, List.zip_cons_cons, List.zip_nil_right] at hfields ⊢
  rw [hfields]
  rcases r with ⟨task | task, state, error | error⟩ <;>
    simp [Fields.required, Fields.nullable, Fields.at?, Content.optional?, Content.ofOption,
      Content.text?, Content.taskId?, Content.natural?, Content.choice?, ExecutorState.ofName?_name]

end StatusReport

/-! ## Requests and responses -/

theorem Request.exact_content (r : Request) : Exact (depth + 2) r.content := by
  apply Content.exact_fields
  cases r <;> simp [entries, Exact.text, Exact.unsigned, Instruction.exact_content, Location.exact_content]

theorem Request.ofContent?_content (r : Request) : ofContent? r.content = some r := by
  have hother : ∀ e ∈ r.entries, e.1 ≠ "op" := by cases r <;> simp [entries]
  have htagged := Content.tagged?_fields r.name hother
  rw [ofContent?, content, htagged]
  cases r with
  | sendInstruction i =>
    have hfields := Fields.ofContent?_fields ["instruction"] [i.content] (by decide) rfl
    simp only [List.zip_cons_cons, List.zip_nil_right] at hfields
    simp [name, entries, hfields, Fields.required, Fields.at?, Instruction.ofContent?_content]
  | openStream task reader =>
    have hfields := Fields.ofContent?_fields ["task_id", "reader"]
      [.unsigned task, reader.content] (by decide) rfl
    simp only [List.zip_cons_cons, List.zip_nil_right] at hfields
    simp [name, entries, hfields, Fields.required, Fields.at?, Content.taskId?, Content.natural?,
      Location.ofContent?_content]
  | _ => rfl

theorem Response.exact_content (r : Response) : Exact (depth + 1) r.content := by
  cases r with
  | status report =>
    apply Content.exact_fields
    simpa [Exact.text] using report.exact_entries
  | _ =>
    apply Content.exact_fields
    simp [Exact.text]

theorem Response.ofContent?_content (r : Response) : ofContent? r.content = some r := by
  cases r with
  | status report =>
    have hother : ∀ e ∈ report.entries, e.1 ≠ "type" := by simp [StatusReport.entries]
    have htagged := Content.tagged?_fields "status" hother
    have hreport := report.ofContent?_content
    rw [ofContent?, content, htagged]
    rw [StatusReport.content] at hreport
    simp [hreport]
  | _ => rfl

namespace Message

/-- What is sent in either direction. -/
inductive Any where
  | request (r : Request)
  | response (r : Response)
  deriving DecidableEq, Repr

namespace Any

def content : Any → Content
  | request r => r.content
  | response r => r.content

/-- How the other side reads it. -/
def ofContent? : Any → Content → Option Any
  | request _, c => (Request.ofContent? c).map request
  | response _, c => (Response.ofContent? c).map response

theorem exact_content (m : Any) : Exact Json.depthLimit m.content := by
  cases m with
  | request r => exact r.exact_content
  | response r => exact r.exact_content

theorem ofContent?_content (m : Any) : m.ofContent? m.content = some m := by
  cases m with
  | request r => simp [ofContent?, content, r.ofContent?_content]
  | response r => simp [ofContent?, content, r.ofContent?_content]

end Any

variable {s : Source} {rest bs : Bytes}

theorem decode?_render {α : Type} {ofContent? : Content → Option α} {c : Content} {a : α}
    (hexact : Exact Json.depthLimit c) (hc : ofContent? c = some a) :
    decode? ofContent? (Bytes.ofString (Json.render c)) = some a := by
  simp [decode?, Codec.toString?_ofString, Json.content?_render hexact, hc]

theorem toNatBE_ofNatBE {n : Nat} (h : n ≤ maxLength) : Bytes.toNatBE (Bytes.ofNatBE 4 n) = n := by
  have hcapacity : maxLength < Bytes.capacity 4 := by decide
  rw [Bytes.toNatBE, Bytes.ofNatBE, List.reverse_reverse, Bytes.toNatLE_ofNatLE]
  exact Nat.mod_eq_of_lt (by omega)

theorem write_eq_ok {c : Content} (h : write c = .ok bs) :
    (Bytes.ofString (Json.render c)).length ≤ maxLength ∧
      bs = Bytes.ofNatBE 4 (Bytes.ofString (Json.render c)).length ++ Bytes.ofString (Json.render c) := by
  simp only [write] at h
  split at h
  · cases h
  · next hle =>
    cases h
    exact ⟨Nat.not_lt.mp hle, rfl⟩

/-- A written message is read, and the bytes behind it are left. -/
theorem read_written {α : Type} {ofContent? : Content → Option α} {c : Content} {a : α}
    (hexact : Exact Json.depthLimit c) (hc : ofContent? c = some a) (hw : write c = .ok bs)
    (hs : s.Delivers (bs ++ rest)) :
    ∃ t, read ofContent? s = (.ok a, t) ∧ t.Delivers rest := by
  obtain ⟨hle, rfl⟩ := write_eq_ok hw
  have hhead : (Bytes.ofNatBE 4 (Bytes.ofString (Json.render c)).length).length = 4 := by
    simp [Bytes.ofNatBE]
  rw [List.append_assoc] at hs
  obtain ⟨t, htake, ht⟩ := hs.take_full (n := 4) (by rw [List.length_append]; omega)
  rw [List.take_left' hhead] at htake
  rw [List.drop_left' hhead] at ht
  obtain ⟨u, htake', hu⟩ := ht.take_full (n := (Bytes.ofString (Json.render c)).length)
    (by rw [List.length_append]; omega)
  rw [List.take_left] at htake'
  rw [List.drop_left] at hu
  refine ⟨u, ?_, hu⟩
  simp only [read, htake, toNatBE_ofNatBE hle, if_neg (Nat.not_lt.mpr hle), htake',
    decode?_render hexact hc]

/-- A source that delivers nothing more is closed. -/
theorem read_ended {α : Type} (ofContent? : Content → Option α) (hs : s.Delivers []) :
    (read ofContent? s).1 = .error .closed := by
  rw [read, hs.take_closed (by decide)]

/-- What is left of a source behind messages. -/
def behind {α : Type} (s : Source) : List (Content → Option α) → Source
  | [] => s
  | ofContent? :: kinds => behind (read ofContent? s).2 kinds

/-- Messages that were written one after the other are read back in their order, however their bytes arrive,
and what is left of the source delivers the bytes behind them and no others. Without any the peer has closed
the connection. -/
theorem written_messages_read_back {messages : List Any} {written : List Bytes}
    (hw : List.Forall₂ (fun m bs => write m.content = .ok bs) messages written)
    (hs : s.Delivers (written.flatten ++ rest)) :
    readEach s (messages.map Any.ofContent?) = messages.map .ok ∧
      (behind s (messages.map Any.ofContent?)).Delivers rest ∧
      (rest = [] → ∀ {α : Type} (ofContent? : Content → Option α),
        (read ofContent? (behind s (messages.map Any.ofContent?))).1 = .error .closed) := by
  induction hw generalizing s with
  | nil =>
    refine ⟨rfl, hs, ?_⟩
    rintro rfl α ofContent?
    exact read_ended ofContent? hs
  | @cons m bs messages written hm hw ih =>
    rw [List.flatten_cons, List.append_assoc] at hs
    obtain ⟨t, hread, ht⟩ := read_written m.exact_content m.ofContent?_content hm hs
    obtain ⟨heach, hbehind, hclosed⟩ := ih ht
    simp only [List.map_cons, readEach, behind, hread]
    exact ⟨by rw [heach], hbehind, hclosed⟩

/-- A reader asks for its rows under a name that has to be escaped, and a report and a grant come back. -/
def handshake : List Any :=
  [.request (.openStream 18446744073709551615 ⟨"re\"duce\\\x01\n𝄞", "127.0.0.1", 65535⟩),
    .response (.status ⟨none, .failed, some "a\tb"⟩), .response .ack]

def handshakeBytes : List Bytes :=
  handshake.map fun m => Bytes.ofNatBE 4 (Bytes.ofString (Json.render m.content)).length ++
    Bytes.ofString (Json.render m.content)

theorem written_messages_read_back_handshake :
    List.Forall₂ (fun m bs => write m.content = .ok bs) handshake handshakeBytes ∧
      (Source.ofBytes (handshakeBytes.flatten ++ [0x4c, 0x50])).Delivers
        (handshakeBytes.flatten ++ [0x4c, 0x50]) ∧
      readEach (Source.ofBytes (handshakeBytes.flatten ++ [0x4c, 0x50]))
        (handshake.map Any.ofContent?) = handshake.map .ok ∧
      (behind (Source.ofBytes (handshakeBytes.flatten ++ [0x4c, 0x50]))
        (handshake.map Any.ofContent?)).Delivers [0x4c, 0x50] := by
  have hshort : ∀ m ∈ handshake, ¬ maxLength < (Bytes.ofString (Json.render m.content)).length := by
    decide +kernel
  have hwritten : List.Forall₂ (fun m bs => write m.content = .ok bs) handshake handshakeBytes := by
    rw [handshakeBytes, List.forall₂_map_right_iff, List.forall₂_same]
    intro m hm
    exact if_neg (hshort m hm)
  have hs := Source.delivers_ofBytes (handshakeBytes.flatten ++ [0x4c, 0x50])
  obtain ⟨hread, hbehind, _⟩ := written_messages_read_back hwritten hs
  exact ⟨hwritten, hs, hread, hbehind⟩

end Message
end QueryCluster
