import QueryCluster.Message.Frame
import QueryCluster.Proofs.Stream.Truncation

/-!
# Bytes in any number of deliveries

The same bytes may arrive at once or in pieces, with interruptions in between. Every amount that is asked
for is collected until it is complete or nothing more comes, so frames, streams and messages are read alike,
and behind each of them the same bytes are left.
-/
namespace QueryCluster

/-- One answer, and states behind it that are the same. -/
def Agree {α σ : Type} (Same : σ → σ → Prop) (p q : α × σ) : Prop :=
  ∃ x s t, p = (x, s) ∧ q = (x, t) ∧ Same s t

theorem Agree.map {α β σ : Type} {Same : σ → σ → Prop} {p q : α × σ} (h : Agree Same p q)
    (f : α → β) : Agree Same (f p.1, p.2) (f q.1, q.2) := by
  obtain ⟨x, s, t, rfl, rfl, hst⟩ := h
  exact ⟨f x, s, t, rfl, rfl, hst⟩

namespace Source

/-- These bytes come in pieces that are not empty, with interruptions between them, and then no more. -/
inductive Delivers : Source → Bytes → Prop
  | ended : Delivers [] []
  | interrupted {s : Source} {bs : Bytes} (h : Delivers s bs) : Delivers (.interrupted :: s) bs
  | data {piece : Bytes} (hpiece : piece ≠ []) {s : Source} {bs : Bytes} (h : Delivers s bs) :
      Delivers (.data piece :: s) (piece ++ bs)

/-- Both sources deliver the same bytes. -/
def Same (s t : Source) : Prop := ∃ bs, s.Delivers bs ∧ t.Delivers bs

theorem delivers_ofBytes (bs : Bytes) : (ofBytes bs).Delivers bs := by
  cases bs with
  | nil => exact .ended
  | cons b bs =>
    have h := Delivers.data (List.cons_ne_nil b bs) .ended
    rwa [List.append_nil] at h

namespace Delivers

variable {s : Source} {bs : Bytes}

/-- What is asked for is the front of what is delivered, and the rest is delivered later. -/
theorem take_full (h : s.Delivers bs) {n : Nat} (hn : n ≤ bs.length) :
    ∃ rest, take n s = .full (bs.take n) rest ∧ rest.Delivers (bs.drop n) := by
  induction h generalizing n with
  | ended =>
    obtain rfl := Nat.le_zero.mp hn
    exact ⟨[], rfl, .ended⟩
  | @interrupted s bs h ih =>
    cases n with
    | zero => exact ⟨_, take_zero _, .interrupted h⟩
    | succ n => exact ih hn
  | @data piece hpiece s bs h ih =>
    cases n with
    | zero => exact ⟨_, take_zero _, .data hpiece h⟩
    | succ n =>
      rw [take, if_neg (by simpa using hpiece)]
      by_cases hlong : n + 1 < piece.length
      · have hback : piece.drop (n + 1) ≠ [] := by simpa using hlong
        rw [if_pos hlong, List.take_append_of_le_length (Nat.le_of_lt hlong),
          List.drop_append_of_le_length (Nat.le_of_lt hlong)]
        exact ⟨_, rfl, .data hback h⟩
      · have hpiece := Nat.not_lt.mp hlong
        obtain ⟨rest, htake, hrest⟩ := ih (n := n + 1 - piece.length) (by simp at hn; omega)
        rw [if_neg hlong, htake, List.take_append, List.drop_append, List.take_of_length_le hpiece,
          List.drop_of_length_le hpiece]
        exact ⟨rest, rfl, hrest⟩

/-- Whoever asks for more than is delivered gets all of it. -/
theorem take_closed (h : s.Delivers bs) {n : Nat} (hn : bs.length < n) : take n s = .closed bs [] := by
  induction h generalizing n with
  | ended =>
    obtain ⟨n, rfl⟩ := Nat.exists_eq_succ_of_ne_zero (Nat.ne_of_gt hn)
    rfl
  | interrupted h ih =>
    obtain ⟨n, rfl⟩ := Nat.exists_eq_succ_of_ne_zero (Nat.ne_of_gt (Nat.zero_lt_of_lt hn))
    exact ih hn
  | @data piece hpiece s bs h ih =>
    obtain ⟨n, rfl⟩ := Nat.exists_eq_succ_of_ne_zero (Nat.ne_of_gt (Nat.zero_lt_of_lt hn))
    rw [List.length_append] at hn
    rw [take, if_neg (by simpa using hpiece), if_neg (by omega), ih (by omega)]
    rfl

end Delivers

theorem same_ended : Same [] [] := ⟨[], .ended, .ended⟩

theorem Same.take {s t : Source} (h : s.Same t) (n : Nat) :
    (∃ got rest rest', take n s = .full got rest ∧ take n t = .full got rest' ∧ rest.Same rest') ∨
      ∃ got, take n s = .closed got [] ∧ take n t = .closed got [] := by
  obtain ⟨bs, hs, ht⟩ := h
  by_cases hn : n ≤ bs.length
  · obtain ⟨rest, hfull, hrest⟩ := hs.take_full hn
    obtain ⟨rest', hfull', hrest'⟩ := ht.take_full hn
    exact .inl ⟨_, rest, rest', hfull, hfull', _, hrest, hrest'⟩
  · exact .inr ⟨bs, hs.take_closed (Nat.not_le.mp hn), ht.take_closed (Nat.not_le.mp hn)⟩

theorem size_take {n : Nat} {s rest : Source} {got : Bytes} (h : take n s = .full got rest) :
    rest.size + n ≤ s.size := by
  fun_induction take n s generalizing got with
  | case1 s =>
    cases h
    exact Nat.le_refl _
  | case2 n => cases h
  | case3 n s ih =>
    have := ih h
    rw [size, Nat.add_comm]
    · omega
    · intro _ h
      cases h
  | case4 n s => cases h
  | case5 n front s hempty => cases h
  | case6 n front s hsome hlong =>
    cases h
    rw [size, size, List.length_drop]
    omega
  | case7 n front s hsome hshort ih =>
    rcases ht : take (n + 1 - front.length) s with ⟨got, rest'⟩ | ⟨got, rest'⟩ | ⟨got, rest'⟩
    · rw [ht] at h
      cases h
      have := ih ht
      rw [size]
      omega
    · rw [ht] at h
      cases h
    · rw [ht] at h
      cases h

end Source

namespace Frame

/-- Frame after frame, a number of times. -/
def readTimes : Nat → Source → List (Except SplitError (Option Frame))
  | 0, _ => []
  | n + 1, s => (read s).1 :: readTimes n (read s).2

theorem readPayload_same (h : Header) {s t : Source} (hst : s.Same t) :
    Agree Source.Same (readPayload h s) (readPayload h t) := by
  rw [readPayload, readPayload]
  rcases hst.take h.length with ⟨got, rest, rest', hs, ht, hrest⟩ | ⟨got, hs, ht⟩
  · rw [hs, ht]
    simp only
    split
    · exact ⟨_, _, _, rfl, rfl, hrest⟩
    · exact ⟨_, _, _, rfl, rfl, hrest⟩
  · rw [hs, ht]
    exact ⟨_, _, _, rfl, rfl, Source.same_ended⟩

theorem read_same {s t : Source} (hst : s.Same t) : Agree Source.Same (read s) (read t) := by
  rw [read, read]
  rcases hst.take headerLength with ⟨got, rest, rest', hs, ht, hrest⟩ | ⟨got, hs, ht⟩
  · rw [hs, ht]
    simp only
    split
    · exact readPayload_same _ hrest
    · exact ⟨_, _, _, rfl, rfl, hrest⟩
  · rw [hs, ht]
    cases got with
    | nil => exact ⟨_, _, _, rfl, rfl, Source.same_ended⟩
    | cons => exact ⟨_, _, _, rfl, rfl, Source.same_ended⟩

theorem readTimes_same (n : Nat) {s t : Source} (hst : s.Same t) : readTimes n s = readTimes n t := by
  induction n generalizing s t with
  | zero => rfl
  | succ n ih =>
    obtain ⟨x, rest, rest', hs, ht, hrest⟩ := read_same hst
    rw [readTimes, readTimes, hs, ht, ih hrest]

theorem size_read {s rest : Source} {f : Frame} (h : read s = (.ok (some f), rest)) :
    rest.size < s.size := by
  rw [read] at h
  rcases ht : s.take headerLength with ⟨bs, behind⟩ | ⟨_ | _, _⟩ | ⟨_, _⟩ <;> rw [ht] at h
  · have hheader := Source.size_take ht
    rcases hread : Header.read bs with fault | header <;> simp only [hread] at h
    · cases h
    rw [readPayload] at h
    rcases hp : behind.take header.length with ⟨payload, rest'⟩ | ⟨_, _⟩ | ⟨_, _⟩ <;> rw [hp] at h
    · have hpayload := Source.size_take hp
      have hrest : rest = rest' := by
        simp only at h
        split at h <;> cases h
        rfl
      have : 0 < headerLength := by decide
      subst hrest
      omega
    · cases h
    · cases h
  · cases h
  · cases h
  · cases h

end Frame

namespace StreamReader

/-- Readers that differ in how their bytes arrive. -/
structure Same (r r' : StreamReader) : Prop where
  source : r.source.Same r'.source
  schema : r.schema = r'.schema
  done : r.done = r'.done

variable {r r' : StreamReader}

theorem Same.readSchema (h : r.Same r') : Agree Same r.readSchema r'.readSchema := by
  obtain ⟨source, schema, done⟩ := r
  obtain ⟨source', schema', done'⟩ := r'
  obtain ⟨hsource, rfl, rfl⟩ := h
  cases schema with
  | some schema => exact ⟨_, _, _, rfl, rfl, ⟨hsource, rfl, rfl⟩⟩
  | none =>
    obtain ⟨frame, rest, rest', hs, ht, hrest⟩ := Frame.read_same hsource
    simp only [StreamReader.readSchema, hs, ht]
    split
    · exact ⟨_, _, _, rfl, rfl, ⟨hrest, rfl, rfl⟩⟩
    · exact ⟨_, _, _, rfl, rfl, ⟨hrest, rfl, rfl⟩⟩
    · split
      · exact ⟨_, _, _, rfl, rfl, ⟨hrest, rfl, rfl⟩⟩
      · exact ⟨_, _, _, rfl, rfl, ⟨hrest, rfl, rfl⟩⟩
    · exact ⟨_, _, _, rfl, rfl, ⟨hrest, rfl, rfl⟩⟩

theorem Same.nextBatch (h : r.Same r') (schema : Schema) :
    Agree Same (r.nextBatch schema) (r'.nextBatch schema) := by
  obtain ⟨frame, rest, rest', hs, ht, hrest⟩ := Frame.read_same h.source
  simp only [StreamReader.nextBatch, hs, ht]
  split
  · exact ⟨_, _, _, rfl, rfl, ⟨hrest, h.schema, h.done⟩⟩
  · exact ⟨_, _, _, rfl, rfl, ⟨hrest, h.schema, h.done⟩⟩
  · exact ⟨_, _, _, rfl, rfl, ⟨hrest, h.schema, h.done⟩⟩
  · exact ⟨_, _, _, rfl, rfl, ⟨hrest, h.schema, rfl⟩⟩
  · exact ⟨_, _, _, rfl, rfl, ⟨hrest, h.schema, h.done⟩⟩

theorem Same.readSplit (h : r.Same r') : Agree Same r.readSplit r'.readSplit := by
  rw [StreamReader.readSplit, StreamReader.readSplit, h.done]
  split
  · exact ⟨_, _, _, rfl, rfl, h⟩
  · obtain ⟨schema, next, next', hr, hr', hnext⟩ := h.readSchema
    simp only [hr, hr']
    cases schema with
    | error e => exact ⟨_, _, _, rfl, rfl, hnext⟩
    | ok schema => exact hnext.nextBatch schema

theorem size_readSchema {schema : Schema} {next : StreamReader} (h : r.readSchema = (.ok schema, next)) :
    next.source.size ≤ r.source.size := by
  rw [StreamReader.readSchema] at h
  split at h
  · cases h
    exact Nat.le_refl _
  · rcases hread : Frame.read r.source with ⟨_ | _ | ⟨_ | _ | _, payload⟩, rest⟩ <;>
      simp only [hread] at h <;> try cases h
    split at h <;> cases h
    exact Nat.le_of_lt (Frame.size_read hread)

theorem size_nextBatch {schema : Schema} {s : Split} {next : StreamReader}
    (h : r.nextBatch schema = (.ok (some s), next)) : next.source.size < r.source.size := by
  rw [StreamReader.nextBatch] at h
  rcases hread : Frame.read r.source with ⟨_ | _ | ⟨_ | _ | _, payload⟩, rest⟩ <;> simp only [hread] at h
  case ok.some.batch =>
    obtain ⟨-, rfl⟩ := Prod.mk.inj h
    exact Frame.size_read hread
  all_goals cases h

theorem size_readSplit {s : Split} {next : StreamReader} (h : r.readSplit = (.ok (some s), next)) :
    next.source.size < r.source.size := by
  rw [StreamReader.readSplit] at h
  split at h
  · cases h
  · rcases hr : r.readSchema with ⟨_ | schema, behind⟩ <;> simp only [hr] at h
    · cases h
    · exact Nat.lt_of_lt_of_le (size_nextBatch h) (size_readSchema hr)

/-- No reader runs out of fuel that has more of it than its source can give. -/
theorem Same.readRest (h : r.Same r') {fuel fuel' : Nat} (hfuel : r.source.size < fuel)
    (hfuel' : r'.source.size < fuel') (all : Split) :
    Agree Same (readRest fuel r all) (readRest fuel' r' all) := by
  induction fuel generalizing fuel' r r' all with
  | zero => cases hfuel
  | succ fuel ih =>
    obtain ⟨fuel', rfl⟩ := Nat.exists_eq_succ_of_ne_zero (Nat.ne_of_gt (Nat.zero_lt_of_lt hfuel'))
    obtain ⟨x, next, next', hr, hr', hnext⟩ := h.readSplit
    rw [StreamReader.readRest, StreamReader.readRest, hr, hr']
    rcases x with e | _ | s
    · exact ⟨_, _, _, rfl, rfl, hnext⟩
    · exact ⟨_, _, _, rfl, rfl, hnext⟩
    · have hless := size_readSplit hr
      have hless' := size_readSplit hr'
      simp only
      split
      · exact ⟨_, _, _, rfl, rfl, hnext⟩
      · exact ih hnext (by omega) (by omega) _

theorem Same.readAll (h : r.Same r') : Agree Same r.readAll r'.readAll := by
  obtain ⟨schema, next, next', hr, hr', hnext⟩ := h.readSchema
  rw [StreamReader.readAll, StreamReader.readAll, hr, hr']
  cases schema with
  | error e => exact ⟨_, _, _, rfl, rfl, hnext⟩
  | ok schema => exact hnext.readRest (by omega) (by omega) _

/-- What a caller can ask of a reader. -/
inductive Question where
  | schema
  | split
  | all
  deriving DecidableEq, Repr

inductive Answer where
  | schema (x : Except SplitError Schema)
  | split (x : Except SplitError (Option Split))
  | all (x : Except SplitError Split)
  deriving DecidableEq, Repr

def ask (r : StreamReader) : Question → Answer × StreamReader
  | .schema => (.schema r.readSchema.1, r.readSchema.2)
  | .split => (.split r.readSplit.1, r.readSplit.2)
  | .all => (.all r.readAll.1, r.readAll.2)

def askEach (r : StreamReader) : List Question → List Answer
  | [] => []
  | q :: questions => (r.ask q).1 :: askEach (r.ask q).2 questions

theorem Same.ask (h : r.Same r') (q : Question) : Agree Same (r.ask q) (r'.ask q) := by
  cases q with
  | schema => exact h.readSchema.map Answer.schema
  | split => exact h.readSplit.map Answer.split
  | all => exact h.readAll.map Answer.all

theorem Same.askEach (h : r.Same r') (questions : List Question) :
    r.askEach questions = r'.askEach questions := by
  induction questions generalizing r r' with
  | nil => rfl
  | cons q questions ih =>
    obtain ⟨answer, next, next', hr, hr', hnext⟩ := h.ask q
    rw [StreamReader.askEach, StreamReader.askEach, hr, hr', ih hnext]

end StreamReader

namespace Message

variable {α : Type}

/-- Message after message, each for its own kind of content. -/
def readEach (s : Source) : List (Content → Option α) → List (Except RpcError α)
  | [] => []
  | ofContent? :: kinds => (read ofContent? s).1 :: readEach (read ofContent? s).2 kinds

theorem read_same (ofContent? : Content → Option α) {s t : Source} (hst : s.Same t) :
    Agree Source.Same (read ofContent? s) (read ofContent? t) := by
  rw [read, read]
  rcases hst.take 4 with ⟨head, rest, rest', hs, ht, hrest⟩ | ⟨head, hs, ht⟩
  · simp only [hs, ht]
    split
    · exact ⟨_, _, _, rfl, rfl, hrest⟩
    rcases hrest.take (Bytes.toNatBE head) with ⟨body, rest, rest', hs, ht, hrest⟩ | ⟨body, hs, ht⟩
    · simp only [hs, ht]
      split
      · exact ⟨_, _, _, rfl, rfl, hrest⟩
      · exact ⟨_, _, _, rfl, rfl, hrest⟩
    · simp only [hs, ht]
      exact ⟨_, _, _, rfl, rfl, Source.same_ended⟩
  · simp only [hs, ht]
    exact ⟨_, _, _, rfl, rfl, Source.same_ended⟩

theorem readEach_same (kinds : List (Content → Option α)) {s t : Source} (hst : s.Same t) :
    readEach s kinds = readEach t kinds := by
  induction kinds generalizing s t with
  | nil => rfl
  | cons ofContent? kinds ih =>
    obtain ⟨x, rest, rest', hs, ht, hrest⟩ := read_same ofContent? hst
    rw [readEach, readEach, hs, ht, ih hrest]

end Message

/-- However bytes arrive, the same frames, the same answers of a stream and the same messages come out of
them, and the same errors. -/
theorem reading_of_deliveries {s : Source} {bs : Bytes} (h : s.Delivers bs) :
    (∀ n, Frame.readTimes n s = Frame.readTimes n (Source.ofBytes bs)) ∧
    (∀ questions, StreamReader.askEach { source := s } questions =
      (StreamReader.ofBytes bs).askEach questions) ∧
    ∀ {α : Type} (kinds : List (Content → Option α)),
      Message.readEach s kinds = Message.readEach (Source.ofBytes bs) kinds := by
  have hsame : s.Same (Source.ofBytes bs) := ⟨bs, h, Source.delivers_ofBytes bs⟩
  have hreaders : StreamReader.Same { source := s } (.ofBytes bs) := ⟨hsame, rfl, rfl⟩
  exact ⟨fun n => Frame.readTimes_same n hsame, hreaders.askEach,
    fun kinds => Message.readEach_same kinds hsame⟩

/-- A stream that breaks off within its first header and goes on after two interruptions. -/
def readingsInPieces : Source :=
  [.data ((StreamWriter.ofSplit StreamReader.readings 1).take 20), .interrupted, .interrupted,
    .data ((StreamWriter.ofSplit StreamReader.readings 1).drop 20)]

theorem reading_of_deliveries_readings :
    readingsInPieces.Delivers (StreamWriter.ofSplit StreamReader.readings 1) ∧
    (∀ n, Frame.readTimes n readingsInPieces =
      Frame.readTimes n (Source.ofBytes (StreamWriter.ofSplit StreamReader.readings 1))) ∧
    (∀ questions, StreamReader.askEach { source := readingsInPieces } questions =
      (StreamReader.ofBytes (StreamWriter.ofSplit StreamReader.readings 1)).askEach questions) ∧
    ∀ {α : Type} (kinds : List (Content → Option α)), Message.readEach readingsInPieces kinds =
      Message.readEach (Source.ofBytes (StreamWriter.ofSplit StreamReader.readings 1)) kinds := by
  have hlong : 20 < (StreamWriter.ofSplit StreamReader.readings 1).length := by
    rw [StreamWriter.ofSplit, List.length_append, List.length_append, StreamWriter.schemaFrame,
      Frame.length_encode, Frame.headerLength]
    omega
  have hdelivers : readingsInPieces.Delivers (StreamWriter.ofSplit StreamReader.readings 1) := by
    have hfront : (StreamWriter.ofSplit StreamReader.readings 1).take 20 ≠ [] :=
      List.ne_nil_of_length_pos (by rw [List.length_take]; omega)
    have hback : (StreamWriter.ofSplit StreamReader.readings 1).drop 20 ≠ [] :=
      List.ne_nil_of_length_pos (by rw [List.length_drop]; omega)
    have h := Source.Delivers.data hfront (.interrupted (.interrupted (.data hback .ended)))
    rwa [List.append_nil, List.take_append_drop] at h
  exact ⟨hdelivers, reading_of_deliveries hdelivers⟩

end QueryCluster
