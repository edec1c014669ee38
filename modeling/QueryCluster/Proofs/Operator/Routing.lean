import Mathlib.Data.List.Perm.Basic
import QueryCluster.Operator.Output
import QueryCluster.Operator.Selection
import QueryCluster.Proofs.Stream.Calls

/-!
# Where routed rows end up

A split is shared out among the outputs of a router: it goes whole to one of them, or each output
gets the rows of its bucket. Nothing is lost or doubled, and under hash partitioning an output gets
only rows whose keys name it. A router that meets no fault has sent to each output one complete
stream of what was shared out to it, cut into batches.
-/
namespace QueryCluster

open StreamWriter (schemaFrame batchFrame endFrame batches stream)

theorem flatMap_range_single {α : Type} {n t : Nat} (h : t < n) (as : List α) :
    ((List.range n).flatMap fun i => if i = t then as else []) = as := by
  induction n with
  | zero => omega
  | succ n ih =>
    rw [List.range_succ, List.flatMap_append, List.flatMap_singleton]
    by_cases ht : t = n
    · subst ht
      have hnone : ((List.range t).flatMap fun i => if i = t then as else []) = [] :=
        List.flatMap_eq_nil_iff.mpr fun i hi => if_neg (Nat.ne_of_lt (List.mem_range.mp hi))
      rw [hnone, if_pos rfl, List.nil_append]
    · rw [ih (by omega), if_neg (Ne.symm ht), List.append_nil]

theorem flatMap_range_alone {α : Type} {n t : Nat} (ht : t < n) {f : Nat → List α}
    (h : ∀ i < n, i ≠ t → f i = []) : (List.range n).flatMap f = f t := by
  rw [← flatMap_range_single ht (f t)]
  refine List.flatMap_congr fun i hi => ?_
  by_cases hit : i = t
  · rw [if_pos hit, hit]
  · rw [if_neg hit, h i (List.mem_range.mp hi) hit]

/-- Buckets named by a function hold all there is between them. -/
theorem flatMap_filter_perm {α : Type} {n : Nat} {f : α → Nat} {as : List α} (h : ∀ a ∈ as, f a < n) :
    ((List.range n).flatMap fun i => as.filter fun a => f a == i).Perm as := by
  induction as with
  | nil => simp
  | cons a as ih =>
    have hsplit : ((List.range n).flatMap fun i => (a :: as).filter fun b => f b == i) =
        (List.range n).flatMap fun i => (if i = f a then [a] else []) ++
          as.filter fun b => f b == i := by
      refine List.flatMap_congr fun i _ => ?_
      by_cases hi : i = f a
      · rw [List.filter_cons_of_pos (by simp [hi]), if_pos hi, List.singleton_append]
      · rw [List.filter_cons_of_neg (by simpa using Ne.symm hi), if_neg hi, List.nil_append]
    rw [hsplit]
    refine (List.flatMap_append_perm _ _ _).symm.trans ?_
    rw [flatMap_range_single (h a List.mem_cons_self)]
    exact (ih fun b hb => h b (List.mem_cons_of_mem a hb)).cons a

theorem countRows_append (xs ys : List Split) : countRows (xs ++ ys) = countRows xs + countRows ys := by
  rw [← length_rowsOf, rowsOf_append, List.length_append, length_rowsOf, length_rowsOf]

theorem rowsOf_unlessEmpty (s : Split) : rowsOf (unlessEmpty s) = s.rows := by
  rw [unlessEmpty]
  split
  · rename_i he
    exact (List.isEmpty_iff.mp he).symm
  · simp

namespace Router

/-- What output `i` gets of a split. -/
def share (r : Router) (s : Split) (i : Nat) : List Split :=
  match r.partitioning with
  | .single | .oneToOne => if i = 0 then unlessEmpty s else []
  | .roundRobin => if i = r.turn then unlessEmpty s else []
  | .hash _ => unlessEmpty (r.bucket s i)

/-- The router behind a split, as far as it decides on the splits to come. -/
def turned (r : Router) (s : Split) : Router :=
  match r.partitioning with
  | .roundRobin => if s.isEmpty then r else { r with turn := (r.turn + 1) % r.outputs.length }
  | _ => r

/-- What output `i` gets of many splits. -/
def shares : Router → List Split → Nat → List Split
  | _, [], _ => []
  | r, s :: splits, i => r.share s i ++ shares (r.turned s) splits i

theorem bucket_isEmpty {r : Router} {s : Split} (h : s.isEmpty) (i : Nat) :
    (r.bucket s i).isEmpty := by
  have hrows : s.rows = [] := List.isEmpty_iff.mp h
  simp [bucket, Split.isEmpty, hrows]

theorem share_of_isEmpty {r : Router} {s : Split} (h : s.isEmpty) (i : Nat) : r.share s i = [] := by
  cases hp : r.partitioning <;> simp [share, hp, unlessEmpty, h, bucket_isEmpty h]

theorem turned_of_isEmpty {r : Router} {s : Split} (h : s.isEmpty) : r.turned s = r := by
  cases hp : r.partitioning <;> simp [turned, hp, h]

@[simp] theorem turned_partitioning (r : Router) (s : Split) :
    (r.turned s).partitioning = r.partitioning := by
  cases hp : r.partitioning <;> simp only [turned, hp]
  split <;> simp [hp]

@[simp] theorem turned_outputs (r : Router) (s : Split) : (r.turned s).outputs = r.outputs := by
  cases hp : r.partitioning <;> simp only [turned, hp]
  split <;> rfl

@[simp] theorem turned_keyColumns (r : Router) (s : Split) :
    (r.turned s).keyColumns = r.keyColumns := by
  cases hp : r.partitioning <;> simp only [turned, hp]
  split <;> rfl

theorem turned_turn {r : Router} (h : r.turn < r.outputs.length) (s : Split) :
    (r.turned s).turn < r.outputs.length := by
  cases hp : r.partitioning <;> simp only [turned, hp] <;> try exact h
  split
  · exact h
  · exact Nat.mod_lt _ (by omega)

/-- Rows of splits under a schema without keys survive the move to a bucket. -/
theorem bucket_rows {r : Router} {s : Split} (hw : s.WellFormed) (hk : s.schema.keys = []) (i : Nat) :
    (r.bucket s i).rows =
      s.rows.filter fun row => hashPartition (r.keyOf row) r.outputs.length == i := by
  have hrow : ∀ row ∈ s.rows.filter (fun row => hashPartition (r.keyOf row) r.outputs.length == i),
      Row.withKeys row.values ((List.range s.schema.keys.length).map row.key?) = row := by
    intro row hrow
    obtain ⟨_, hkeys, hflags⟩ := hw row (List.mem_of_mem_filter hrow)
    rw [hk] at hkeys hflags ⊢
    rcases row with ⟨values, keys, flags⟩
    obtain rfl : keys = [] := List.length_eq_zero_iff.mp hkeys
    obtain rfl : flags = [] := List.length_eq_zero_iff.mp hflags
    rfl
  rw [bucket]
  exact (List.map_congr_left hrow).trans (List.map_id' _)

theorem bucket_under {r : Router} {schema : Schema} {s : Split} (hs : s.Under schema) (i : Nat) :
    (r.bucket s i).Under schema := by
  refine ⟨hs.schema_eq, fun row hrow => ?_⟩
  obtain ⟨old, hold, rfl⟩ := List.mem_map.mp hrow
  obtain ⟨hv, _, _⟩ := hs.wellFormed old (List.mem_of_mem_filter hold)
  exact ⟨hv, by simp [Row.withKeys, bucket], by simp [Row.withKeys, bucket]⟩

theorem mem_unlessEmpty {s t : Split} (h : t ∈ unlessEmpty s) : t = s := by
  rw [unlessEmpty] at h
  split at h
  · cases h
  · simpa using h

theorem share_under {r : Router} {schema : Schema} {s t : Split} (hs : s.Under schema) {i : Nat}
    (h : t ∈ r.share s i) : t.Under schema := by
  cases hp : r.partitioning <;> simp only [share, hp] at h
  case hash keys =>
    rw [mem_unlessEmpty h]
    exact bucket_under hs i
  all_goals
    split at h
    · rw [mem_unlessEmpty h]
      exact hs
    · cases h

theorem shares_under {r : Router} {schema : Schema} {splits : List Split}
    (hs : ∀ s ∈ splits, s.Under schema) {i : Nat} : ∀ t ∈ r.shares splits i, t.Under schema := by
  induction splits generalizing r with
  | nil => simp [shares]
  | cons s splits ih =>
    intro t ht
    rcases List.mem_append.mp ht with ht | ht
    · exact share_under (hs s List.mem_cons_self) ht
    · exact ih (fun u hu => hs u (List.mem_cons_of_mem s hu)) t ht

variable {schema : Schema}

/-- Splits that a router hands on as they are: hash partitioning drops keys. -/
def Keeps (r : Router) (s : Split) : Prop :=
  ∀ keys, r.partitioning = .hash keys → s.WellFormed ∧ s.schema.keys = []

theorem share_perm {r : Router} {s : Split} (ht : r.turn < r.outputs.length) (hk : r.Keeps s) :
    ((List.range r.outputs.length).flatMap fun i => rowsOf (r.share s i)).Perm s.rows := by
  have hwhole : ∀ t < r.outputs.length,
      ((List.range r.outputs.length).flatMap fun i =>
        rowsOf (if i = t then unlessEmpty s else [])) = s.rows := by
    intro t h
    rw [← rowsOf_unlessEmpty s, ← flatMap_range_single h (rowsOf (unlessEmpty s))]
    refine List.flatMap_congr fun i _ => ?_
    split <;> rfl
  cases hp : r.partitioning <;> simp only [share, hp]
  case hash keys =>
    obtain ⟨hw, hkeys⟩ := hk keys hp
    simp only [rowsOf_unlessEmpty, bucket_rows hw hkeys]
    exact flatMap_filter_perm fun row _ => hashPartition_lt _ (by omega)
  case roundRobin => rw [hwhole _ ht]
  all_goals rw [hwhole 0 (by omega)]

/-- All rows are shared out, each to one output. -/
theorem shares_perm {r : Router} {splits : List Split} (ht : r.turn < r.outputs.length)
    (hk : ∀ s ∈ splits, r.Keeps s) :
    ((List.range r.outputs.length).flatMap fun i => rowsOf (r.shares splits i)).Perm
      (rowsOf splits) := by
  induction splits generalizing r with
  | nil => simp [shares]
  | cons s splits ih =>
    have hrest := ih (r := r.turned s) (by rw [turned_outputs]; exact turned_turn ht s)
      (fun t h keys hp => hk t (List.mem_cons_of_mem s h) keys (by rwa [turned_partitioning] at hp))
    rw [turned_outputs] at hrest
    simp only [shares, rowsOf_append, rowsOf_cons]
    exact (List.flatMap_append_perm _ _ _).symm.trans
      ((share_perm ht (hk s List.mem_cons_self)).append hrest)

/-- A bucket drops sort keys, but no values. -/
theorem bucket_values (r : Router) (s : Split) (i : Nat) :
    (r.bucket s i).rows.map Row.values =
      (s.rows.filter fun row => hashPartition (r.keyOf row) r.outputs.length == i).map Row.values := by
  rw [bucket, List.map_map]
  rfl

theorem share_values_perm {r : Router} (s : Split) (ht : r.turn < r.outputs.length) :
    ((List.range r.outputs.length).flatMap fun i => (rowsOf (r.share s i)).map Row.values).Perm
      (s.rows.map Row.values) := by
  by_cases hp : ∃ keys, r.partitioning = .hash keys
  · obtain ⟨keys, hp⟩ := hp
    simp only [share, hp, rowsOf_unlessEmpty, bucket_values]
    rw [← List.map_flatMap]
    exact (flatMap_filter_perm fun row _ => hashPartition_lt _ (by omega)).map _
  · rw [← List.map_flatMap]
    exact (share_perm ht fun keys h => absurd ⟨keys, h⟩ hp).map _

/-- The values of all rows are shared out, whether the rows have sort keys or not. -/
theorem shares_values_perm {r : Router} (splits : List Split) (ht : r.turn < r.outputs.length) :
    ((List.range r.outputs.length).flatMap fun i =>
      (rowsOf (r.shares splits i)).map Row.values).Perm ((rowsOf splits).map Row.values) := by
  induction splits generalizing r with
  | nil => simp [shares]
  | cons s splits ih =>
    have hrest := @ih (r.turned s) (by rw [turned_outputs]; exact turned_turn ht s)
    rw [turned_outputs] at hrest
    simp only [shares, rowsOf_append, rowsOf_cons, List.map_append]
    exact (List.flatMap_append_perm _ _ _).symm.trans ((share_values_perm s ht).append hrest)

/-- Under hash partitioning a row goes where its keys say. -/
theorem hashPartition_of_mem_shares {r : Router} {splits : List Split} {keys : List String}
    (hp : r.partitioning = .hash keys) {i : Nat} {row : Row} (h : row ∈ rowsOf (r.shares splits i)) :
    hashPartition (r.keyOf row) r.outputs.length = i := by
  induction splits generalizing r with
  | nil => cases h
  | cons s splits ih =>
    rw [shares, rowsOf_append] at h
    rcases List.mem_append.mp h with h | h
    · simp only [share, hp, rowsOf_unlessEmpty, bucket] at h
      obtain ⟨old, hold, rfl⟩ := List.mem_map.mp h
      simpa [keyOf, Row.withKeys] using (List.mem_filter.mp hold).2
    · have := ih (r := r.turned s) (by rw [turned_partitioning, hp]) h
      rwa [turned_outputs, keyOf, turned_keyColumns] at this

/-- A single output gets all rows, in their order. -/
theorem rowsOf_shares_single {r : Router} (hp : r.partitioning = .single) (splits : List Split) :
    rowsOf (r.shares splits 0) = rowsOf splits := by
  induction splits generalizing r with
  | nil => rfl
  | cons s splits ih =>
    rw [shares, rowsOf_append, rowsOf_cons, ih (by rw [turned_partitioning, hp])]
    simp only [share, hp, if_true, rowsOf_unlessEmpty]

end Router

/-- An output that was sent some splits, in batches of at most `n` rows. -/
def Output.written (schema : Schema) (n : Nat) (splits : List Split) : Output where
  writer := some ⟨n, some schema, countRows splits⟩
  sent := schemaFrame schema ++ (splits.flatMap (batches · n)).flatMap batchFrame

namespace Router

variable {schema : Schema} {n : Nat}

theorem send_written {i : Nat} {splits : List Split} {s : Split} {o : Output}
    (h : send (·.writeSplit s) i (.written schema n splits) = .ok o) :
    o = .written schema n (splits ++ [s]) := by
  simp only [send, Output.written, StreamWriter.writeSplit] at h
  by_cases hs : s.schema.columns.length ≠ schema.columns.length ∨
      s.schema.keys.length ≠ schema.keys.length
  · rw [if_pos hs] at h
    cases h
  · rw [if_neg hs] at h
    cases h
    simp [Output.written, countRows_append, countRows]

theorem treat_id (i : Nat) (os : List Output) : treat (fun _ o => .ok o) i os = (none, os) := by
  induction os generalizing i with
  | nil => rfl
  | cons o os ih => rw [treat, ih]

/-- Outputs are treated one by one: each is as it was or was treated well. -/
theorem treat_range {f : Nat → Output → Except OperatorError Output} {g : Nat → Output} {i m : Nat}
    {fault : Option OperatorError} {os : List Output}
    (ht : treat f i ((List.range' i m).map g) = (fault, os)) :
    ∃ g' : Nat → Output, os = (List.range' i m).map g' ∧
      (∀ k, g' k = g k ∨ f k (g k) = .ok (g' k)) ∧
      (fault = none → ∀ k ∈ List.range' i m, f k (g k) = .ok (g' k)) := by
  induction m generalizing i fault os with
  | zero =>
    cases ht
    exact ⟨g, rfl, fun _ => .inl rfl, by simp⟩
  | succ m ih =>
    rw [List.range'_succ, List.map_cons, treat] at ht
    rcases hf : f i (g i) with e | o
    · rw [hf] at ht
      cases ht
      exact ⟨g, by rw [List.range'_succ, List.map_cons], fun _ => .inl rfl, fun h => by cases h⟩
    rw [hf] at ht
    rcases hr : treat f (i + 1) ((List.range' (i + 1) m).map g) with ⟨rest, os'⟩
    rw [hr] at ht
    cases ht
    obtain ⟨g', rfl, hold, hall⟩ := ih hr
    refine ⟨Function.update g' i o, ?_, fun k => ?_, fun hnone k hk => ?_⟩
    · rw [List.range'_succ, List.map_cons, Function.update_self]
      refine congrArg _ (List.map_congr_left fun k hk => (Function.update_of_ne ?_ _ _).symm)
      have := List.mem_range'_1.mp hk
      omega
    · by_cases hki : k = i
      · rw [hki, Function.update_self]
        exact .inr hf
      · rw [Function.update_of_ne hki]
        exact hold k
    · by_cases hki : k = i
      · rw [hki, Function.update_self]
        exact hf
      · rw [Function.update_of_ne hki]
        have := List.mem_range'_1.mp hk
        exact hall hnone k (List.mem_range'_1.mpr (by omega))

/-- What all outputs hold once a treatment is over: what they held or what they should hold. -/
theorem onOutputs_held {f : Nat → Output → Except OperatorError Output} {r r' : Router}
    {fault : Option OperatorError} {g : Nat → Output} (g' : Nat → Output)
    (h : ∀ k o, f k (g k) = .ok o → o = g' k) {m : Nat}
    (hr : r.outputs = (List.range' 0 m).map g) (ho : r.onOutputs f = (fault, r')) :
    ∃ g'' : Nat → Output, r'.outputs = (List.range' 0 m).map g'' ∧ ∀ k, g'' k = g k ∨ g'' k = g' k := by
  rcases ht : treat f 0 r.outputs with ⟨fault', os⟩
  rw [onOutputs, ht] at ho
  cases ho
  rw [hr] at ht
  obtain ⟨g'', hos, hold, _⟩ := treat_range ht
  exact ⟨g'', hos, fun k => (hold k).imp_right (h k _)⟩

theorem onOutputs_ok {f : Nat → Output → Except OperatorError Output} {r r' : Router}
    {g : Nat → Output} (g' : Nat → Output) (h : ∀ k o, f k (g k) = .ok o → o = g' k) {m : Nat}
    (hr : r.outputs = (List.range' 0 m).map g) (ho : r.onOutputs f = (none, r')) :
    r' = { r with outputs := (List.range' 0 m).map g' } := by
  rcases ht : treat f 0 r.outputs with ⟨fault, os⟩
  rw [onOutputs, ht] at ho
  cases ho
  rw [hr] at ht
  obtain ⟨g'', rfl, _, hall⟩ := treat_range ht
  rw [List.map_congr_left fun k hk => h k _ (hall rfl k hk)]

/-- The router with so many splits written to its outputs. -/
def wrote (r : Router) (schema : Schema) (n m : Nat) (held : Nat → List Split) : Router :=
  { r with outputs := (List.range' 0 m).map fun i => .written schema n (held i) }

theorem length_wrote (r : Router) (m : Nat) (held : Nat → List Split) :
    (r.wrote schema n m held).outputs.length = m := by
  simp [wrote]

/-- Writing a split treats the outputs one by one, each with its share. -/
theorem writeSplit_eq {r : Router} {held : Nat → List Split} {s : Split} (ho : 0 < r.outputs.length) :
    ∃ f : Nat → Output → Except OperatorError Output,
      (r.wrote schema n r.outputs.length held).writeSplit s =
        ((r.turned s).wrote schema n r.outputs.length held).onOutputs f ∧
      ∀ k o, f k (.written schema n (held k)) = .ok o →
        o = .written schema n (held k ++ r.share s k) := by
  have hlen : (r.wrote schema n r.outputs.length held).outputs.length = r.outputs.length :=
    length_wrote r _ held
  have hsome : (r.wrote schema n r.outputs.length held).outputs.isEmpty = false :=
    List.isEmpty_eq_false_iff.mpr (List.length_pos_iff.mp (by omega))
  by_cases he : s.isEmpty
  · refine ⟨fun _ o => .ok o, ?_, fun k o hk => ?_⟩
    · rw [writeSplit, he, Bool.true_or, if_pos rfl, turned_of_isEmpty he, onOutputs, treat_id]
    · rw [share_of_isEmpty he, List.append_nil]
      exact (Except.ok.inj hk).symm
  have hwhole : unlessEmpty s = [s] := by rw [unlessEmpty, if_neg he]
  have hne : s.isEmpty = false := by simpa using he
  have hto : ∀ t k o, (if k = t then send (·.writeSplit s) k (.written schema n (held k))
      else .ok (.written schema n (held k))) = .ok o →
        o = .written schema n (held k ++ if k = t then unlessEmpty s else []) := by
    intro t k o hk
    split at hk
    · rename_i hkt
      rw [send_written hk, if_pos hkt, hwhole]
    · rename_i hkt
      rw [← Except.ok.inj hk, if_neg hkt, List.append_nil]
  rw [writeSplit, hne, hsome, Bool.or_false, if_neg (by simp)]
  rcases r with ⟨os, partitioning, keyColumns, turn⟩
  cases partitioning with
  | single => exact ⟨_, rfl, hto 0⟩
  | oneToOne => exact ⟨_, rfl, hto 0⟩
  | roundRobin =>
    refine ⟨fun i o => if i = turn then send (·.writeSplit s) i o else .ok o, ?_, hto turn⟩
    simp only [hlen, turned, hne]
    rfl
  | hash keys =>
    have hbucket : ∀ i, (Router.wrote ⟨os, .hash keys, keyColumns, turn⟩ schema n os.length
        held).bucket s i = Router.bucket ⟨os, .hash keys, keyColumns, turn⟩ s i := by
      intro i
      simp only [bucket, hlen]
      rfl
    refine ⟨_, rfl, fun k o hk => ?_⟩
    simp only [hbucket] at hk
    simp only [share]
    rw [unlessEmpty]
    by_cases hb : (Router.bucket ⟨os, .hash keys, keyColumns, turn⟩ s k).isEmpty
    · rw [if_pos hb] at hk ⊢
      rw [← Except.ok.inj hk, List.append_nil]
    · rw [if_neg hb] at hk ⊢
      exact send_written hk

/-- Writing a split adds to each output its share. -/
theorem writeSplit_ok {r r' : Router} {held : Nat → List Split} {s : Split}
    (ho : 0 < r.outputs.length)
    (h : (r.wrote schema n r.outputs.length held).writeSplit s = (none, r')) :
    r' = (r.turned s).wrote schema n r.outputs.length fun i => held i ++ r.share s i := by
  obtain ⟨f, hf, hshare⟩ := @writeSplit_eq schema n r held s ho
  rw [hf] at h
  exact (onOutputs_ok _ hshare rfl h).trans rfl

/-- Outputs hold some of their shares when writing a split has failed. -/
theorem writeSplit_held {r r' : Router} {held : Nat → List Split} {s : Split}
    {fault : Option OperatorError} (ho : 0 < r.outputs.length)
    (h : (r.wrote schema n r.outputs.length held).writeSplit s = (fault, r')) :
    ∃ held' : Nat → List Split, r'.outputs = (List.range' 0 r.outputs.length).map
      (fun i => .written schema n (held' i)) ∧ ∀ i, held' i <+: held i ++ r.share s i := by
  obtain ⟨f, hf, hshare⟩ := @writeSplit_eq schema n r held s ho
  rw [hf] at h
  obtain ⟨g, houtputs, hg⟩ := onOutputs_held _ hshare rfl h
  have hheld : ∀ i, ∃ splits, g i = .written schema n splits ∧ splits <+: held i ++ r.share s i :=
    fun i => (hg i).elim (fun hi => ⟨_, hi, List.prefix_append _ _⟩) fun hi => ⟨_, hi, List.prefix_rfl⟩
  choose held' hwritten hpre using hheld
  exact ⟨held', by rw [houtputs, funext hwritten], hpre⟩

theorem writeSplits_ok {r r' : Router} {held : Nat → List Split} {splits : List Split}
    (ho : 0 < r.outputs.length)
    (h : (r.wrote schema n r.outputs.length held).writeSplits splits = (none, r')) :
    r'.outputs = (List.range' 0 r.outputs.length).map fun i =>
      .written schema n (held i ++ r.shares splits i) := by
  induction splits generalizing r held with
  | nil =>
    cases h
    simp [shares, wrote]
  | cons s splits ih =>
    rw [writeSplits] at h
    rcases hs : (r.wrote schema n r.outputs.length held).writeSplit s with ⟨_ | e, r₁⟩
    · rw [hs] at h
      rw [writeSplit_ok ho hs, ← turned_outputs r s] at h
      have hrest := ih (by rw [turned_outputs]; exact ho) h
      rw [turned_outputs] at hrest
      simp only [shares, ← List.append_assoc]
      exact hrest
    · rw [hs] at h
      cases h

/-- Outputs hold the first few of their shares wherever the writing ends. -/
theorem writeSplits_held {r r' : Router} {held : Nat → List Split} {splits : List Split}
    {fault : Option OperatorError} (ho : 0 < r.outputs.length)
    (h : (r.wrote schema n r.outputs.length held).writeSplits splits = (fault, r')) :
    ∃ held' : Nat → List Split, r'.outputs = (List.range' 0 r.outputs.length).map
      (fun i => .written schema n (held' i)) ∧ ∀ i, held' i <+: held i ++ r.shares splits i := by
  induction splits generalizing r held with
  | nil =>
    cases h
    exact ⟨held, rfl, fun _ => List.prefix_append _ _⟩
  | cons s splits ih =>
    rw [writeSplits] at h
    rcases hs : (r.wrote schema n r.outputs.length held).writeSplit s with ⟨_ | e, r₁⟩
    · rw [hs] at h
      rw [writeSplit_ok ho hs, ← turned_outputs r s] at h
      obtain ⟨held', houtputs, hpre⟩ := ih (by rwa [turned_outputs]) h
      rw [turned_outputs] at houtputs
      refine ⟨held', houtputs, fun i => ?_⟩
      rw [shares, ← List.append_assoc]
      exact hpre i
    · rw [hs] at h
      cases h
      obtain ⟨held', houtputs, hpre⟩ := writeSplit_held ho hs
      refine ⟨held', houtputs, fun i => (hpre i).trans ?_⟩
      rw [shares, ← List.append_assoc]
      exact List.prefix_append _ _

theorem finishFrom_written {is : List Nat} {held : Nat → List Split} :
    finishFrom (is.map fun i => Output.written schema n (held i)) =
      (none, is.map fun i => ⟨none, stream schema ((held i).flatMap (batches · n))⟩) := by
  induction is with
  | nil => rfl
  | cons i is ih =>
    simp only [List.map_cons, finishFrom, ih]
    simp [Output.written, StreamWriter.finish, stream]

end Router

/-- A router at its start that knows the key columns. -/
def Router.opened (outputs : Nat) (partitioning : Partitioning) (batchRows : Nat)
    (keyColumns : List Nat) : Router :=
  { Router.start outputs partitioning batchRows with keyColumns }

namespace Router

variable {schema : Schema} {outputs batchRows : Nat} {partitioning : Partitioning}
  {keyColumns : List Nat}

@[simp] theorem opened_partitioning :
    (opened outputs partitioning batchRows keyColumns).partitioning = partitioning := rfl

@[simp] theorem opened_keyColumns :
    (opened outputs partitioning batchRows keyColumns).keyColumns = keyColumns := rfl

@[simp] theorem opened_turn : (opened outputs partitioning batchRows keyColumns).turn = 0 := rfl

@[simp] theorem length_opened :
    (opened outputs partitioning batchRows keyColumns).outputs.length = outputs := by
  simp [opened, start]

theorem start_outputs (outputs batchRows : Nat) (partitioning : Partitioning) :
    (start outputs partitioning batchRows).outputs =
      (List.range' 0 outputs).map fun _ => { writer := some (StreamWriter.start batchRows) } := by
  simp [start, List.map_const']

theorem send_schema {k : Nat} {o : Output}
    (h : send (·.writeSchema schema) k { writer := some (StreamWriter.start batchRows) } = .ok o) :
    o = .written schema (max batchRows 1) [] := by
  simp only [send, StreamWriter.writeSchema, StreamWriter.start] at h
  cases h
  exact congrArg (Output.mk _) ((List.nil_append _).trans (List.append_nil _).symm)

theorem writeSchema_ok {r : Router}
    (h : (start outputs partitioning batchRows).writeSchema schema = (none, r)) :
    ∃ keyColumns, columnsOf partitioning schema = .ok keyColumns ∧
      r = (opened outputs partitioning batchRows keyColumns).wrote schema (max batchRows 1) outputs
        fun _ => [] := by
  have hpart : (start outputs partitioning batchRows).partitioning = partitioning := rfl
  rw [writeSchema, hpart] at h
  rcases hc : columnsOf partitioning schema with f | keyColumns
  · rw [hc] at h
    cases h
  rw [hc] at h
  refine ⟨keyColumns, rfl, onOutputs_ok (r := opened outputs partitioning batchRows keyColumns)
    (fun _ => .written schema (max batchRows 1) []) (fun _ _ => send_schema)
    (start_outputs outputs batchRows partitioning) h⟩

end Router

namespace Emission

variable {schema : Schema} {outputs batchRows : Nat} {partitioning : Partitioning}

/-- The batches that an emission sends to output `i`. -/
def batchesTo (e : Emission) (outputs : Nat) (partitioning : Partitioning) (batchRows i : Nat) :
    List Split :=
  match e.schema.map (Router.columnsOf partitioning) with
  | some (.ok keyColumns) =>
    ((Router.opened outputs partitioning batchRows keyColumns).shares e.splits i).flatMap
      (batches · (max batchRows 1))
  | _ => []

theorem batchesTo_eq {e : Emission} {keyColumns : List Nat} (hs : e.schema = some schema)
    (hc : Router.columnsOf partitioning schema = .ok keyColumns) (i : Nat) :
    e.batchesTo outputs partitioning batchRows i =
      ((Router.opened outputs partitioning batchRows keyColumns).shares e.splits i).flatMap
        (batches · (max batchRows 1)) := by
  simp only [batchesTo, hs, Option.map_some, hc]

theorem rowsOf_batchesTo {e : Emission} {keyColumns : List Nat} (hs : e.schema = some schema)
    (hc : Router.columnsOf partitioning schema = .ok keyColumns) (i : Nat) :
    rowsOf (e.batchesTo outputs partitioning batchRows i) =
      rowsOf ((Router.opened outputs partitioning batchRows keyColumns).shares e.splits i) := by
  rw [batchesTo_eq hs hc, StreamWriter.rowsOf_flatMap_batches _ (by omega)]

theorem batchesTo_under {e : Emission} (hs : e.schema = some schema)
    (hu : ∀ s ∈ e.splits, s.Under schema) {i : Nat} {b : Split}
    (hb : b ∈ e.batchesTo outputs partitioning batchRows i) : b.Under schema := by
  rcases hc : Router.columnsOf partitioning schema with f | keyColumns
  · simp only [batchesTo, hs, Option.map_some, hc] at hb
    cases hb
  · rw [batchesTo_eq hs hc] at hb
    obtain ⟨s, hshare, hb⟩ := List.mem_flatMap.mp hb
    exact StreamWriter.batches_under (Router.shares_under hu s hshare) (by omega) hb

/-- The outputs together get all rows that were written. -/
theorem batchesTo_perm {e : Emission} {keyColumns : List Nat} (hs : e.schema = some schema)
    (hc : Router.columnsOf partitioning schema = .ok keyColumns) (ho : 0 < outputs)
    (hu : ∀ s ∈ e.splits, s.Under schema)
    (hk : ∀ keys, partitioning = .hash keys → schema.keys = []) :
    ((List.range outputs).flatMap fun i =>
      rowsOf (e.batchesTo outputs partitioning batchRows i)).Perm (rowsOf e.splits) := by
  have hkeeps : ∀ s ∈ e.splits, (Router.opened outputs partitioning batchRows keyColumns).Keeps s :=
    fun s h keys hp => ⟨(hu s h).wellFormed, (hu s h).schema_eq ▸ hk keys hp⟩
  have hperm := Router.shares_perm (by rwa [Router.length_opened, Router.opened_turn]) hkeeps
  rw [Router.length_opened] at hperm
  simp only [rowsOf_batchesTo hs hc]
  exact hperm

theorem batchesTo_values_perm {e : Emission} {keyColumns : List Nat} (hs : e.schema = some schema)
    (hc : Router.columnsOf partitioning schema = .ok keyColumns) (ho : 0 < outputs) :
    ((List.range outputs).flatMap fun i =>
      (rowsOf (e.batchesTo outputs partitioning batchRows i)).map Row.values).Perm
        ((rowsOf e.splits).map Row.values) := by
  have hperm := Router.shares_values_perm e.splits
    (show (Router.opened outputs partitioning batchRows keyColumns).turn < _ by
      rwa [Router.length_opened, Router.opened_turn])
  rw [Router.length_opened] at hperm
  simp only [rowsOf_batchesTo hs hc]
  exact hperm

theorem hashPartition_of_mem_batchesTo {e : Emission} {keyColumns : List Nat} {keys : List String}
    (hs : e.schema = some schema) (hc : Router.columnsOf (.hash keys) schema = .ok keyColumns)
    {i : Nat} {row : Row} (h : row ∈ rowsOf (e.batchesTo outputs (.hash keys) batchRows i)) :
    hashPartition (keyColumns.map fun c => row.values[c]?.getD .null) outputs = i := by
  rw [rowsOf_batchesTo hs hc] at h
  have := Router.hashPartition_of_mem_shares Router.opened_partitioning h
  rwa [Router.length_opened, Router.keyOf, Router.opened_keyColumns] at this

theorem rowsOf_batchesTo_single {e : Emission} (hs : e.schema = some schema) :
    rowsOf (e.batchesTo outputs .single batchRows 0) = rowsOf e.splits := by
  have hc : Router.columnsOf .single schema = .ok [] := rfl
  rw [rowsOf_batchesTo hs hc]
  exact Router.rowsOf_shares_single Router.opened_partitioning e.splits

/-- Writes the schema and the splits of a run, up to the first fault, and ends no stream. -/
def write (e : Emission) (r : Router) : Option OperatorError × Router :=
  match e.schema with
  | some schema => match r.writeSchema schema with
    | (some f, r) => (some f, r)
    | (none, r) => r.writeSplits e.splits
  | none => r.writeSplits e.splits

/-- The streams end behind what is written, and only if the run went well. -/
theorem send_eq (e : Emission) (r : Router) : e.send r =
    match e.write r, e.outcome with
    | (some f, r), _ => (.error f, r)
    | (none, r), .error f => (.error f, r)
    | (none, r), .ok stats => match r.finish with
      | (some f, r) => (.error f, r)
      | (none, r) => (.ok stats, r) := by
  rw [send, write]
  rcases e.schema with _ | schema
  · rfl
  · dsimp only
    rcases r.writeSchema schema with ⟨_ | f, r₁⟩
    · rfl
    · rfl

/-- All outputs hold their shares when the writing has met no fault. -/
theorem write_ok {e : Emission} {r : Router} (hs : e.schema = some schema) (ho : 0 < outputs)
    (h : e.write (.start outputs partitioning batchRows) = (none, r)) :
    (∃ keyColumns, Router.columnsOf partitioning schema = .ok keyColumns) ∧
      r.finish = (none, { r with outputs := (List.range' 0 outputs).map fun i =>
        ⟨none, stream schema (e.batchesTo outputs partitioning batchRows i)⟩ }) := by
  rw [write, hs] at h
  simp only at h
  rcases hw : (Router.start outputs partitioning batchRows).writeSchema schema with ⟨_ | f, r₁⟩
  swap
  · rw [hw] at h
    cases h
  obtain ⟨keyColumns, hc, rfl⟩ := Router.writeSchema_ok hw
  rw [hw] at h
  have hwritten : ((Router.opened outputs partitioning batchRows keyColumns).wrote schema
      (max batchRows 1) (Router.opened outputs partitioning batchRows keyColumns).outputs.length
      fun _ => []).writeSplits e.splits = (none, r) := by
    rw [Router.length_opened]
    exact h
  have houtputs := Router.writeSplits_ok (by rwa [Router.length_opened]) hwritten
  rw [Router.length_opened] at houtputs
  refine ⟨⟨keyColumns, hc⟩, ?_⟩
  rw [Router.finish, houtputs, Router.finishFrom_written]
  simp only [batchesTo, hs, Option.map_some, hc, List.nil_append]

/-- A run sent without a fault leaves one complete stream at each output. -/
theorem send_ok {e : Emission} {stats : Stats} {r : Router} (hs : e.schema = some schema)
    (ho : 0 < outputs) (h : e.send (.start outputs partitioning batchRows) = (.ok stats, r)) :
    e.outcome = .ok stats ∧ (∃ keyColumns, Router.columnsOf partitioning schema = .ok keyColumns) ∧
      r.outputs.map (·.sent) = (List.range outputs).map fun i =>
        stream schema (e.batchesTo outputs partitioning batchRows i) := by
  rw [send_eq] at h
  rcases hw : e.write (.start outputs partitioning batchRows) with ⟨_ | f, r₁⟩
  swap
  · rw [hw] at h
    cases h
  obtain ⟨hc, hfinish⟩ := write_ok hs ho hw
  rcases hout : e.outcome with f | stats'
  · rw [hw, hout] at h
    cases h
  rw [hw, hout] at h
  simp only [hfinish] at h
  cases h
  refine ⟨rfl, hc, ?_⟩
  rw [List.map_map, List.range_eq_range']
  rfl

end Emission
end QueryCluster
