import QueryCluster.Proofs.Outcome
import QueryCluster.Proofs.Split.Layout
import QueryCluster.Stream.Reader

/-!
# Arrays of one length

However a split comes about, from its schema, from given arrays or out of any bytes that a reader is given,
all its arrays have an entry for each row, and whatever is done to it leaves them so. A change that is
refused leaves the split as it was, and a split that is cut in two is got back from its halves.
-/
namespace QueryCluster

/-- What can be done to a split, with another one of its kind where it takes that in. -/
inductive Edit (σ : Type) where
  | push (values : List Value)
  | pushKeyed (values : List Value) (keys : List (Option Value))
  | append (other : σ)
  | sort
  | takeRow (r : Nat)
  | withOrders (orders : List Direction)
  | slice (start stop : Nat)
  | withoutKeys

namespace Edit

variable {σ τ : Type}

def map (f : σ → τ) : Edit σ → Edit τ
  | push values => push values
  | pushKeyed values keys => pushKeyed values keys
  | append other => append (f other)
  | sort => sort
  | takeRow r => takeRow r
  | withOrders orders => withOrders orders
  | slice start stop => slice start stop
  | withoutKeys => withoutKeys

/-- What a caller owes: a good split to append, a row to take that is there. -/
def Allowed (good : σ → Prop) (rowCount : Nat) : Edit σ → Prop
  | append other => good other
  | takeRow r => r < rowCount
  | _ => True

end Edit

def Columnar.edited (c : Columnar) : Edit Columnar → Outcome
  | .push values => c.push values
  | .pushKeyed values keys => c.pushKeyed values keys
  | .append other => some (c.append other)
  | .sort => c.sort.map fun d => (none, d)
  | .takeRow r => (c.takeRow r).map fun taken => (none, taken.2)
  | .withOrders orders => some (none, { c with orders })
  | .slice start stop => (c.slice start stop).map fun d => (none, d)
  | .withoutKeys => some (none, c.withoutKeys)

namespace Split

def edited (s : Split) : Edit Split → Option (Option ShapeFault × Split)
  | .push values => some (s.unlessRefused (s.push values))
  | .pushKeyed values keys => some (s.unlessRefused (s.pushKeyed values keys))
  | .append other => some (s.unlessRefused (s.append other))
  | .sort => some (none, s.sort)
  | .takeRow r => (s.take? r).map fun taken => (none, taken.2)
  | .withOrders orders => some (none, { s with orders })
  | .slice start stop => some (none, s.slice start stop)
  | .withoutKeys => some (none, s.withoutKeys)

variable {s t : Split}

/-- Arrays change as the rows do that they hold. -/
theorem arrays_edited (hw : s.WellFormed) {e : Edit Split} (he : e.Allowed WellFormed s.rowCount) :
    s.arrays.edited (e.map arrays) = (s.edited e).map (Prod.map id arrays) := by
  cases e with
  | push values => exact Columnar.push_eq s values
  | pushKeyed values keys => exact Columnar.pushKeyed_eq s values keys
  | append other => exact congrArg some (Columnar.append_eq s other)
  | sort => exact congrArg (Option.map _) (Columnar.sort_eq hw)
  | takeRow r =>
    have htaken := Columnar.takeRow_eq hw he
    simp only [Edit.map, Columnar.edited, htaken, edited, Option.map_map]
    rfl
  | withOrders orders => rfl
  | slice start stop => exact congrArg (Option.map _) (Columnar.slice_eq s start stop)
  | withoutKeys => exact congrArg (fun c => some (none, c)) (Columnar.withoutKeys_eq s)

/-! ### Rows that fit go on fitting -/

theorem pushKeyed_wellFormed (hw : s.WellFormed) {values : List Value} {keys : List (Option Value)}
    (h : s.pushKeyed values keys = .ok t) : t.WellFormed := by
  rw [pushKeyed] at h
  split at h
  · cases h
  split at h
  · cases h
  rename_i hvalues hkeys
  cases h
  refine List.forall_mem_append.mpr ⟨hw, List.forall_mem_singleton.mpr ?_⟩
  exact ⟨not_not.mp hvalues, (List.length_map _).trans (not_not.mp hkeys),
    (List.length_map _).trans (not_not.mp hkeys)⟩

theorem append_wellFormed {other : Split} (hw : s.WellFormed) (ho : other.WellFormed)
    (h : s.append other = .ok t) : t.WellFormed := by
  obtain ⟨⟨hcolumns, hkeys⟩, rfl⟩ := append_eq_ok.mp h
  refine List.forall_mem_append.mpr ⟨hw, fun row hrow => ?_⟩
  have hfits := ho row hrow
  rwa [Row.Fits, hcolumns, hkeys] at hfits

theorem sort_wellFormed (hw : s.WellFormed) : s.sort.WellFormed := by
  rw [sort]
  split
  · exact fun row hrow => hw row ((stableSort_perm s.rows).mem_iff.mp hrow)
  · exact hw

theorem take?_wellFormed (hw : s.WellFormed) {r : Nat} {row : Row} (h : s.take? r = some (row, t)) :
    t.WellFormed := by
  rcases hr : s.rows[r]? with _ | old
  · rw [take?, hr] at h
    cases h
  rw [take?, hr] at h
  cases h
  obtain ⟨hvalues, hkeys, hflags⟩ := hw _ (List.mem_of_getElem? hr)
  intro row hrow
  rcases List.mem_or_eq_of_mem_set hrow with hrow | rfl
  · exact hw row hrow
  · exact ⟨(List.length_map _).trans hvalues, (List.length_map _).trans hkeys, hflags⟩

theorem slice_wellFormed (hw : s.WellFormed) (start stop : Nat) : (s.slice start stop).WellFormed :=
  fun row hrow => hw row (List.mem_of_mem_take (List.mem_of_mem_drop hrow))

theorem withoutKeys_wellFormed (hw : s.WellFormed) : s.withoutKeys.WellFormed := by
  intro row hrow
  obtain ⟨old, hold, rfl⟩ := List.mem_map.mp hrow
  exact ⟨(hw old hold).1, rfl, rfl⟩

theorem unlessRefused_wellFormed (hw : s.WellFormed) {result : Except ShapeFault Split}
    (h : ∀ t, result = .ok t → t.WellFormed) : (s.unlessRefused result).2.WellFormed ∧
      ((s.unlessRefused result).1 ≠ none → (s.unlessRefused result).2 = s) := by
  cases result with
  | ok t => exact ⟨h t rfl, fun hfault => absurd rfl hfault⟩
  | error fault => exact ⟨hw, fun _ => rfl⟩

/-- No change that is allowed fails to give a split that is well-formed again. -/
theorem exists_edited (hw : s.WellFormed) {e : Edit Split} (he : e.Allowed WellFormed s.rowCount) :
    ∃ fault t, s.edited e = some (fault, t) ∧ t.WellFormed ∧ (fault ≠ none → t = s) := by
  cases e with
  | push values => exact ⟨_, _, rfl, unlessRefused_wellFormed hw fun _ => pushKeyed_wellFormed hw⟩
  | pushKeyed values keys => exact ⟨_, _, rfl, unlessRefused_wellFormed hw fun _ => pushKeyed_wellFormed hw⟩
  | append other => exact ⟨_, _, rfl, unlessRefused_wellFormed hw fun _ => append_wellFormed hw he⟩
  | sort => exact ⟨_, _, rfl, sort_wellFormed hw, fun h => absurd rfl h⟩
  | takeRow r =>
    have hlt : r < s.rows.length := he
    rcases htaken : s.take? r with _ | ⟨row, t⟩
    · rw [take?, List.getElem?_eq_getElem hlt] at htaken
      cases htaken
    · exact ⟨_, _, congrArg (Option.map _) htaken, take?_wellFormed hw htaken, fun h => absurd rfl h⟩
  | withOrders orders => exact ⟨_, _, rfl, hw, fun h => absurd rfl h⟩
  | slice start stop => exact ⟨_, _, rfl, slice_wellFormed hw start stop, fun h => absurd rfl h⟩
  | withoutKeys => exact ⟨_, _, rfl, withoutKeys_wellFormed hw, fun h => absurd rfl h⟩

theorem slice_append_slice (s : Split) (a : Nat) :
    (s.slice 0 a).append (s.slice a s.rowCount) = .ok s := by
  have hrows : (s.rows.take a).drop 0 ++ (s.rows.take s.rowCount).drop a = s.rows := by
    rw [rowCount, List.take_length, List.drop_zero, List.take_append_drop]
  have hshaped : (s.slice a s.rowCount).Shaped (s.slice 0 a).schema := ⟨rfl, rfl⟩
  exact (append_of_shaped hshaped).trans (congrArg (fun rows => Except.ok { s with rows }) hrows)

end Split

/-! ## Read from bytes -/

namespace StreamReader

def readBatchArrays (schema : Schema) (payload : Bytes) : Except SplitError Columnar :=
  match Codec.decode? Batch.decode payload with
  | none => .error .codec
  | some b => (Columnar.ofParts schema b.columns b.keys b.flags).mapError .shape

def nextArrays (r : StreamReader) (schema : Schema) :
    Except SplitError (Option Columnar) × StreamReader :=
  let (frame, source) := Frame.read r.source
  let r := { r with source }
  match frame with
  | .error e => (.error e, r)
  | .ok none => (.error .truncated, r)
  | .ok (some ⟨.batch, payload⟩) => ((readBatchArrays schema payload).map some, r)
  | .ok (some ⟨.finish, _⟩) => (.ok none, { r with done := true })
  | .ok (some ⟨.metadata, _⟩) => (.error (.protocol .lateMetadata), r)

def readArrays (r : StreamReader) : Except SplitError (Option Columnar) × StreamReader :=
  if r.done then (.ok none, r)
  else
    let (schema, r) := r.readSchema
    match schema with
    | .error e => (.error e, r)
    | .ok s => r.nextArrays s

def readRestArrays : (fuel : Nat) → StreamReader → Columnar → Except SplitError Columnar × StreamReader
  | 0, r, _ => (.error .truncated, r)
  | fuel + 1, r, all =>
    match r.readArrays with
    | (.error e, r) => (.error e, r)
    | (.ok none, r) => (.ok all, r)
    | (.ok (some c), r) =>
      match all.append c with
      | (some fault, _) => (.error (.shape fault), r)
      | (none, all) => readRestArrays fuel r all

def readAllArrays (r : StreamReader) : Except SplitError Columnar × StreamReader :=
  match r.readSchema with
  | (.error e, r) => (.error e, r)
  | (.ok schema, r) => readRestArrays (r.source.size + 2) r (.empty schema)

variable {schema : Schema} {payload : Bytes} {r : StreamReader} {s : Split}

theorem readBatch_eq (schema : Schema) (payload : Bytes) :
    readBatch schema payload = (readBatchArrays schema payload).map Columnar.split := by
  rw [readBatch, readBatchArrays]
  cases Codec.decode? Batch.decode payload with
  | none => rfl
  | some b =>
    simp only [Batch.toSplit, Columnar.ofParts_eq]
    cases Columnar.ofParts schema b.columns b.keys b.flags <;> rfl

theorem readBatchArrays_wellFormed {c : Columnar} (h : readBatchArrays schema payload = .ok c) :
    c.WellFormed := by
  rw [readBatchArrays] at h
  cases hb : Codec.decode? Batch.decode payload with
  | none =>
    rw [hb] at h
    cases h
  | some b =>
    rw [hb] at h
    exact Columnar.ofParts_wellFormed (mapError_ok h)

theorem readBatchArrays_eq (schema : Schema) (payload : Bytes) :
    readBatchArrays schema payload = (readBatch schema payload).map Split.arrays := by
  rw [readBatch_eq]
  rcases h : readBatchArrays schema payload with e | c
  · rfl
  · exact congrArg Except.ok (readBatchArrays_wellFormed h).arrays_split.symm

theorem readBatch_wellFormed (h : readBatch schema payload = .ok s) : s.WellFormed := by
  rw [readBatch_eq] at h
  obtain ⟨c, hc, rfl⟩ := map_ok h
  exact (readBatchArrays_wellFormed hc).split

theorem nextArrays_eq (r : StreamReader) (schema : Schema) : r.nextArrays schema =
    ((r.nextBatch schema).1.map (Option.map Split.arrays), (r.nextBatch schema).2) := by
  rw [nextArrays, nextBatch]
  rcases Frame.read r.source with ⟨e | _ | ⟨kind, payload⟩, source⟩
  · rfl
  · rfl
  cases kind with
  | batch =>
    simp only [readBatchArrays_eq]
    cases readBatch schema payload <;> rfl
  | metadata => rfl
  | finish => rfl

theorem nextBatch_wellFormed (h : (r.nextBatch schema).1 = .ok (some s)) : s.WellFormed := by
  rw [nextBatch] at h
  generalize Frame.read r.source = read at h
  rcases read with ⟨e | _ | ⟨kind, payload⟩, source⟩
  · cases h
  · cases h
  cases kind with
  | batch =>
    obtain ⟨t, ht, hsome⟩ := map_ok h
    cases hsome
    exact readBatch_wellFormed ht
  | metadata => cases h
  | finish => cases h

/-- What is read as arrays is read as rows. -/
theorem readArrays_eq (r : StreamReader) :
    r.readArrays = (r.readSplit.1.map (Option.map Split.arrays), r.readSplit.2) := by
  rw [readArrays, readSplit]
  split
  · rfl
  · rcases r.readSchema with ⟨e | schema, r'⟩
    · rfl
    · exact nextArrays_eq r' schema

theorem readSplit_wellFormed (h : r.readSplit.1 = .ok (some s)) : s.WellFormed := by
  rw [readSplit] at h
  generalize r.readSchema = read at h
  split at h
  · cases h
  · rcases read with ⟨e | schema, r'⟩
    · cases h
    · exact nextBatch_wellFormed h

theorem readRestArrays_eq (fuel : Nat) (r : StreamReader) (all : Split) : readRestArrays fuel r all.arrays =
    ((readRest fuel r all).1.map Split.arrays, (readRest fuel r all).2) := by
  induction fuel generalizing r all with
  | zero => rfl
  | succ fuel ih =>
    rw [readRestArrays, readRest, readArrays_eq]
    rcases r.readSplit with ⟨e | _ | s, r'⟩
    · rfl
    · rfl
    · have happend := Columnar.append_eq all s
      rcases hall : all.append s with fault | both
      · rw [hall] at happend
        simp only [Except.map, Option.map, happend, hall]
        rfl
      · rw [hall] at happend
        simp only [Except.map, Option.map, happend, hall]
        exact ih r' both

theorem readRest_wellFormed {fuel : Nat} {all : Split} (ha : all.WellFormed)
    (h : (readRest fuel r all).1 = .ok s) : s.WellFormed := by
  induction fuel generalizing r all with
  | zero => cases h
  | succ fuel ih =>
    rw [readRest] at h
    rcases hr : r.readSplit with ⟨e | _ | t, r'⟩
    · rw [hr] at h
      cases h
    · rw [hr] at h
      cases h
      exact ha
    · rw [hr] at h
      simp only at h
      have ht : t.WellFormed := readSplit_wellFormed (r := r) (by rw [hr])
      rcases hall : all.append t with fault | both
      · rw [hall] at h
        cases h
      · rw [hall] at h
        exact ih (Split.append_wellFormed ha ht hall) h

theorem readAllArrays_eq (r : StreamReader) :
    r.readAllArrays = (r.readAll.1.map Split.arrays, r.readAll.2) := by
  rw [readAllArrays, readAll]
  rcases r.readSchema with ⟨e | schema, r'⟩
  · rfl
  · simp only [Columnar.empty_eq]
    exact readRestArrays_eq _ r' { schema }

theorem readAll_wellFormed (h : r.readAll.1 = .ok s) : s.WellFormed := by
  rw [readAll] at h
  generalize r.readSchema = read at h
  rcases read with ⟨e | schema, r'⟩
  · cases h
  · exact readRest_wellFormed (fun _ hrow => by cases hrow) h

end StreamReader

/-- Whatever goes on in arrays goes on in the rows that they hold: every good set of arrays is that of one
split, and each way to come by arrays and each change of them has its like on splits. -/
structure Mirrored : Prop where
  rows : ∀ c : Columnar, c.WellFormed → c.split.WellFormed ∧ c.split.arrays = c
  arrays : ∀ s : Split, s.WellFormed → s.arrays.WellFormed ∧ s.arrays.split = s
  empty : ∀ schema, .empty schema = ({ schema } : Split).arrays
  ofParts : ∀ schema columns keys flags, Columnar.ofParts schema columns keys flags =
    (Split.ofColumns schema columns keys flags).map Split.arrays
  readSplit : ∀ r : StreamReader,
    r.readArrays = (r.readSplit.1.map (Option.map Split.arrays), r.readSplit.2) ∧
      ∀ s, r.readSplit.1 = .ok (some s) → s.WellFormed
  readAll : ∀ r : StreamReader, r.readAllArrays = (r.readAll.1.map Split.arrays, r.readAll.2) ∧
    ∀ s, r.readAll.1 = .ok s → s.WellFormed
  edited : ∀ (s : Split) (e : Edit Split), s.WellFormed → e.Allowed Split.WellFormed s.rowCount →
    ∃ fault t, s.edited e = some (fault, t) ∧ t.WellFormed ∧
      s.arrays.edited (e.map Split.arrays) = some (fault, t.arrays)

theorem mirrored : Mirrored where
  rows _ hc := ⟨hc.split, hc.arrays_split⟩
  arrays s hw := ⟨s.arrays_wellFormed, hw.split_arrays⟩
  empty := Columnar.empty_eq
  ofParts schema columns keys flags := by
    rw [Columnar.ofParts_eq]
    rcases h : Columnar.ofParts schema columns keys flags with fault | c
    · rfl
    · exact congrArg Except.ok (Columnar.ofParts_wellFormed h).arrays_split.symm
  readSplit r := ⟨r.readArrays_eq, fun _ => StreamReader.readSplit_wellFormed⟩
  readAll r := ⟨r.readAllArrays_eq, fun _ => StreamReader.readAll_wellFormed⟩
  edited s e hw he := by
    obtain ⟨fault, t, ht, hwell, _⟩ := Split.exists_edited hw he
    refine ⟨fault, t, ht, hwell, ?_⟩
    rw [Split.arrays_edited hw he, ht]
    rfl

namespace Columnar

/-- A change of arrays as a change of the rows that they hold. -/
theorem exists_edit {c : Columnar} {e : Edit Columnar} (he : e.Allowed WellFormed c.rowCount) :
    ∃ e' : Edit Split, e'.Allowed Split.WellFormed c.rowCount ∧ e'.map Split.arrays = e := by
  cases e with
  | append other => exact ⟨.append other.split, he.split, congrArg Edit.append he.arrays_split⟩
  | push values => exact ⟨.push values, trivial, rfl⟩
  | pushKeyed values keys => exact ⟨.pushKeyed values keys, trivial, rfl⟩
  | sort => exact ⟨.sort, trivial, rfl⟩
  | takeRow r => exact ⟨.takeRow r, he, rfl⟩
  | withOrders orders => exact ⟨.withOrders orders, trivial, rfl⟩
  | slice start stop => exact ⟨.slice start stop, trivial, rfl⟩
  | withoutKeys => exact ⟨.withoutKeys, trivial, rfl⟩

/-- The arrays of a split have one length, however it comes about and whatever is done to it. -/
theorem arrays_stay_even :
    (∀ schema, (Columnar.empty schema).WellFormed) ∧
    (∀ schema columns keys flags c, ofParts schema columns keys flags = .ok c → c.WellFormed) ∧
    (∀ (r : StreamReader) c, r.readArrays.1 = .ok (some c) → c.WellFormed) ∧
    (∀ (r : StreamReader) c, r.readAllArrays.1 = .ok c → c.WellFormed) ∧
    (∀ (c : Columnar) e, c.WellFormed → e.Allowed WellFormed c.rowCount →
      ∃ fault d, c.edited e = some (fault, d) ∧ d.WellFormed ∧ (fault ≠ none → d = c)) ∧
    (∀ (c : Columnar) a, c.WellFormed → ∃ front back, c.slice 0 a = some front ∧
      c.slice a c.rowCount = some back ∧ front.append back = (none, c)) ∧ Mirrored := by
  refine ⟨fun schema => ?_, fun _ _ _ _ _ => ofParts_wellFormed, fun r c h => ?_, fun r c h => ?_,
    fun c e hc he => ?_, fun c a hc => ?_, mirrored⟩
  · rw [empty_eq]
    exact Split.arrays_wellFormed _
  · rw [StreamReader.readArrays_eq] at h
    obtain ⟨s, _, hs⟩ := map_ok h
    obtain ⟨t, _, rfl⟩ := Option.map_eq_some_iff.mp hs
    exact t.arrays_wellFormed
  · rw [StreamReader.readAllArrays_eq] at h
    obtain ⟨s, _, rfl⟩ := map_ok h
    exact s.arrays_wellFormed
  · obtain ⟨s, hw, rfl⟩ := wellFormed_iff.mp hc
    obtain ⟨edit, hallowed, rfl⟩ := exists_edit he
    obtain ⟨fault, t, ht, _, hrefused⟩ := Split.exists_edited hw hallowed
    have hedited := Split.arrays_edited hw hallowed
    rw [ht] at hedited
    exact ⟨fault, t.arrays, hedited, t.arrays_wellFormed, fun hf => congrArg _ (hrefused hf)⟩
  · obtain ⟨s, hw, rfl⟩ := wellFormed_iff.mp hc
    refine ⟨_, _, slice_eq s 0 a, slice_eq s a s.rowCount, ?_⟩
    rw [append_eq, s.slice_append_slice a]
    rfl

/-- Two rows, of which the second one has no key. -/
def taxis : Columnar where
  schema := { columns := [⟨"line", .int64⟩, ⟨"zone", .utf8⟩], keys := [⟨"__key0", .int64⟩] }
  columns := [[.int64 7, .int64 8], [.text "N", .text "S"]]
  keys := [[.int64 3, .null]]
  flags := [[true, false]]
  rowCount := 2

theorem arrays_stay_even_taxis : taxis.WellFormed ∧
    (∃ front back, taxis.slice 0 1 = some front ∧ taxis.slice 1 taxis.rowCount = some back ∧
      front.append back = (none, taxis)) ∧
    (∃ d, taxis.edited (.takeRow 1) = some (none, d) ∧ d.WellFormed ∧ d ≠ taxis) ∧
    taxis.edited (.append (empty { columns := [] })) = some (some (.appendShape 0 0 2 1), taxis) := by
  have htaxis : taxis.WellFormed := by constructor <;> decide
  have hbare : (empty { columns := [] }).WellFormed := arrays_stay_even.1 _
  obtain ⟨_, _, _, _, hedits, hslices, _⟩ := arrays_stay_even
  obtain ⟨_, _, htaken, hd, _⟩ := hedits taxis (.takeRow 1) htaxis (by decide : 1 < 2)
  obtain ⟨_, _, hrefused, _⟩ := hedits taxis (.append (empty { columns := [] })) htaxis hbare
  refine ⟨htaxis, hslices taxis 1 htaxis, ?_, ?_⟩
  · cases htaken
    exact ⟨_, rfl, hd, by decide⟩
  · cases hrefused
    rfl

end Columnar
end QueryCluster
