import Mathlib.Data.List.Nodup
import QueryCluster.Proofs.Operator.Aggregation
import QueryCluster.Proofs.Operator.Routing
import QueryCluster.Value.Key

/-!
# Groups tallied apart

Rows are dealt out to workers by their key bytes, and each worker makes one row of each key it sees.
Since equal key bytes stand for equal key values and aggregates do not depend on order, the rows of
all workers are those of one grouping over all rows. Without keys one worker has all rows, and it
writes a row even if there are none.
-/
namespace QueryCluster

/-- The aggregates and key columns of a grouping whose rows may come in any order. -/
structure Groupable (columns : List Field) (keyColumns : List Nat) (slots : List AggregateSlot) :
    Prop where
  keys : ∀ c ∈ keyColumns, ∃ f, columns[c]? = some f ∧ f.type.isFloat = false
  slots : ∀ s ∈ slots, s.Steady columns

/-- A typed row whose key texts can be counted. -/
structure Row.Groupable (columns : List Field) (keyColumns : List Nat) (r : Row) : Prop where
  typed : r.Typed columns
  short : ∀ c ∈ keyColumns, (Grouping.valueAt r c).Short

theorem Row.Typed.valueAt_fits {columns : List Field} {r : Row} (h : r.Typed columns) {c : Nat}
    {f : Field} (hf : columns[c]? = some f) : (Grouping.valueAt r c).Fits f.type := by
  rw [Grouping.valueAt]
  rcases hv : r.values[c]? with _ | v
  · exact .inl rfl
  · exact h.value_fits hf hv

section Tally

variable {columns : List Field} {keyColumns : List Nat} {slots : List AggregateSlot}
  {rows rows' : List Row}

/-- Rows with the same key bytes have the same keys. -/
theorem keys_eq_of_groupKey (hg : Groupable columns keyColumns slots) {r t : Row}
    (hr : r.Groupable columns keyColumns) (ht : t.Groupable columns keyColumns)
    (h : groupKey keyColumns r = groupKey keyColumns t) :
    keyColumns.map (Grouping.valueAt r) = keyColumns.map (Grouping.valueAt t) := by
  have hfits : ∀ u : Row, u.Groupable columns keyColumns →
      List.Forall₂ (fun t v => Value.Fits v t)
        (keyColumns.map fun c => (columns[c]?.map Field.type).getD .utf8)
        (keyColumns.map (Grouping.valueAt u)) := by
    intro u hu
    rw [List.forall₂_map_left_iff, List.forall₂_map_right_iff, List.forall₂_same]
    intro c hc
    obtain ⟨f, hf, _⟩ := hg.keys c hc
    rw [hf]
    exact hu.typed.valueAt_fits hf
  refine keyBytes_inj (List.forall_mem_map.mpr fun c hc => ?_) (hfits r hr) (hfits t ht)
    (List.forall_mem_map.mpr hr.short) (List.forall_mem_map.mpr ht.short) h
  obtain ⟨f, hf, hfloat⟩ := hg.keys c hc
  rw [hf]
  exact hfloat

/-- The row of a group does not depend on the order of the rows of the group. -/
theorem groupRow_perm (hg : Groupable columns keyColumns slots) (hp : rows.Perm rows')
    (hr : ∀ r ∈ rows, r.Groupable columns keyColumns) (k : Bytes)
    (hk : ∀ r ∈ rows, groupKey keyColumns r = k) {out : Row}
    (h : groupRow keyColumns slots rows = .ok out) : groupRow keyColumns slots rows' = .ok out := by
  obtain ⟨results, hresults, hout⟩ := bind_ok h
  have hsame : slots.mapM (fun a => Aggregate.valueOver a.func a.result a.argument rows') = .ok results := by
    have hall := mapM_ok (mapError_ok hresults)
    refine mapM_eq_ok ?_
    clear hresults hout h
    induction hall with
    | nil => exact .nil
    | cons hfirst _ ih =>
      refine .cons (valueOver_perm (hg.slots _ List.mem_cons_self) hp (fun r h => (hr r h).typed) hfirst) ?_
      exact ih ⟨hg.keys, fun s hs => hg.slots s (List.mem_cons_of_mem _ hs)⟩
  have hvalues : keyColumns.map (fun c => (rows.head?.map (Grouping.valueAt · c)).getD .null) =
      keyColumns.map fun c => (rows'.head?.map (Grouping.valueAt · c)).getD .null := by
    rcases rows with _ | ⟨r, rest⟩
    · rw [hp.nil_eq]
    rcases rows' with _ | ⟨t, rest'⟩
    · exact absurd hp.eq_nil (by simp)
    have ht : t ∈ r :: rest := hp.mem_iff.mpr List.mem_cons_self
    have hrt := (hk r List.mem_cons_self).trans (hk t ht).symm
    exact keys_eq_of_groupKey hg (hr r List.mem_cons_self) (hr t ht) hrt
  cases hout
  rw [groupRow, hsame, hvalues]
  rfl

/-- One row for each key of some rows. -/
structure Tallied (keyColumns : List Nat) (slots : List AggregateSlot) (rows : List Row)
    (entries : List (Bytes × Row)) : Prop where
  nodup : (entries.map Prod.fst).Nodup
  keys : ∀ k, k ∈ entries.map Prod.fst ↔ k ∈ rows.map (groupKey keyColumns)
  rows : ∀ e ∈ entries,
    groupRow keyColumns slots (rows.filter fun r => groupKey keyColumns r = e.1) = .ok e.2

namespace Tallied

variable {entries : List (Bytes × Row)}

theorem entries_nil (h : Tallied keyColumns slots [] entries) : entries = [] := by
  rcases entries with _ | ⟨e, entries⟩
  · rfl
  · have := (h.keys e.1).mp (by simp)
    cases this

/-- A tally by keys gives the groups of the plan. -/
theorem meaning (h : Tallied keyColumns slots rows entries) (hk : keyColumns ≠ []) :
    ∃ out, (groupsOf keyColumns rows).mapM (groupRow keyColumns slots) = .ok out ∧
      (entries.map Prod.snd).Perm out := by
  have hperm : (entries.map Prod.fst).Perm (rows.map (groupKey keyColumns)).dedup :=
    (List.perm_ext_iff_of_nodup h.nodup (List.nodup_dedup _)).mpr fun k => by
      rw [h.keys k, List.mem_dedup]
  have hentries : (entries.map Prod.fst).mapM (fun k =>
      groupRow keyColumns slots (rows.filter fun r => groupKey keyColumns r = k)) =
        .ok (entries.map Prod.snd) := by
    refine mapM_eq_ok ?_
    rw [List.forall₂_map_left_iff, List.forall₂_map_right_iff, List.forall₂_same]
    exact h.rows
  obtain ⟨out, hout, hsame⟩ := mapM_perm_ok hperm hentries
  refine ⟨out, ?_, hsame⟩
  rw [groupsOf, if_neg hk]
  refine mapM_eq_ok ?_
  rw [List.forall₂_map_left_iff]
  exact mapM_ok hout

/-- Without keys all rows are one group. -/
theorem meaning_nil (h : Tallied [] slots rows entries) (hr : rows ≠ []) :
    ∃ out, groupRow [] slots rows = .ok out ∧ entries.map Prod.snd = [out] := by
  have hkey : ∀ r : Row, groupKey [] r = [] := fun _ => rfl
  have hall : ∀ k ∈ entries.map Prod.fst, k = [] := by
    intro k hk
    obtain ⟨r, _, rfl⟩ := List.mem_map.mp ((h.keys k).mp hk)
    rfl
  have hfilter : (rows.filter fun r => groupKey [] r = ([] : Bytes)) = rows :=
    List.filter_eq_self.mpr fun r _ => by simp [hkey]
  rcases entries with _ | ⟨⟨k, out⟩, _ | ⟨e, entries⟩⟩
  · obtain ⟨r, hr⟩ := List.exists_mem_of_ne_nil rows hr
    have := (h.keys []).mpr (List.mem_map.mpr ⟨r, hr, rfl⟩)
    cases this
  · obtain rfl : k = [] := hall k (by simp)
    have hrow := h.rows ([], out) List.mem_cons_self
    rw [hfilter] at hrow
    exact ⟨out, hrow, rfl⟩
  · have hnodup := h.nodup
    rw [List.map_cons, List.map_cons, hall k (by simp), hall e.1 (by simp)] at hnodup
    simp at hnodup

end Tallied

/-- What a worker writes: a row for each key, or the row of no rows. -/
def Wrote (keyColumns : List Nat) (slots : List AggregateSlot) (emptyRow : Bool)
    (rows out : List Row) : Prop :=
  ∃ entries, Tallied keyColumns slots rows entries ∧
    if rows = [] ∧ keyColumns = [] ∧ emptyRow then
      ∃ r, groupRow keyColumns slots [] = .ok r ∧ out = [r]
    else out = entries.map Prod.snd

/-- Each row that is written is the row of some of the rows. -/
theorem Wrote.exists_of_mem {emptyRow : Bool} {out : List Row} {r : Row}
    (h : Wrote keyColumns slots emptyRow rows out) (hr : r ∈ out) :
    ∃ sub : List Row, (∀ t ∈ sub, t ∈ rows) ∧ groupRow keyColumns slots sub = .ok r := by
  obtain ⟨entries, htally, h⟩ := h
  split at h
  · obtain ⟨t, ht, rfl⟩ := h
    obtain rfl := List.mem_singleton.mp hr
    exact ⟨[], by simp, ht⟩
  · subst h
    obtain ⟨e, he, rfl⟩ := List.mem_map.mp hr
    exact ⟨_, fun t ht => List.mem_of_mem_filter ht, htally.rows e he⟩

section Workers

variable {n : Nat} {share : Nat → List Row}

/-- Workers with keys of their own tally together what one would. -/
theorem Tallied.union (hg : Groupable columns keyColumns slots)
    (hr : ∀ r ∈ rows, r.Groupable columns keyColumns)
    (hp : rows.Perm ((List.range n).flatMap share))
    (hshare : ∀ i < n, ∀ r ∈ share i, bucketOf (groupKey keyColumns r) n = i)
    {entries : Nat → List (Bytes × Row)}
    (h : ∀ i < n, Tallied keyColumns slots (share i) (entries i)) :
    Tallied keyColumns slots rows ((List.range n).flatMap entries) := by
  have hkeys : ∀ i < n, ∀ k ∈ (entries i).map Prod.fst, bucketOf k n = i := by
    intro i hi k hk
    obtain ⟨r, hr, rfl⟩ := List.mem_map.mp (((h i hi).keys k).mp hk)
    exact hshare i hi r hr
  refine ⟨?_, fun k => ?_, fun e he => ?_⟩
  · rw [List.map_flatMap, List.nodup_flatMap]
    refine ⟨fun i hi => (h i (List.mem_range.mp hi)).nodup, ?_⟩
    refine List.nodup_range.imp_of_mem fun {i j} hi hj hij => ?_
    intro k hki hkj
    exact hij ((hkeys i (List.mem_range.mp hi) k hki).symm.trans
      (hkeys j (List.mem_range.mp hj) k hkj))
  · rw [List.map_flatMap, List.mem_flatMap, (hp.map _).mem_iff, List.map_flatMap, List.mem_flatMap]
    exact exists_congr fun i => and_congr_right fun hi => (h i (List.mem_range.mp hi)).keys k
  · obtain ⟨i, hi, he⟩ := List.mem_flatMap.mp he
    have hi := List.mem_range.mp hi
    have hown : ((List.range n).flatMap share).filter (fun r => groupKey keyColumns r = e.1) =
        (share i).filter fun r => groupKey keyColumns r = e.1 := by
      rw [List.filter_flatMap]
      refine flatMap_range_alone hi fun j hj hji => List.filter_eq_nil_iff.mpr fun r hr hre => hji ?_
      have hbucket := hshare j hj r hr
      rw [of_decide_eq_true hre] at hbucket
      exact hbucket.symm.trans (hkeys i hi e.1 (List.mem_map_of_mem he))
    have hperm := hp.filter fun r => groupKey keyColumns r = e.1
    rw [hown] at hperm
    refine groupRow_perm hg hperm.symm (fun r hmem => ?_) e.1 (fun r hmem => ?_) ((h i hi).rows e he)
    · exact hr r (List.mem_of_mem_filter (hperm.mem_iff.mpr hmem))
    · exact of_decide_eq_true (List.mem_filter.mp hmem).2

/-- Without keys the worker that owns the only group writes it, and the others write nothing. -/
theorem workers_mean_nil (hn : 0 < n) (hg : Groupable columns [] slots)
    (hr : ∀ r ∈ rows, r.Groupable columns [])
    (hp : rows.Perm ((List.range n).flatMap share))
    (hshare : ∀ i < n, ∀ r ∈ share i, bucketOf (groupKey [] r) n = i)
    {emptyRow : Nat → Bool} (howner : ∀ i, emptyRow i = (bucketOf [] n == i))
    {out : Nat → List Row} (h : ∀ i < n, Wrote [] slots (emptyRow i) (share i) (out i)) :
    ∃ r, groupRow [] slots rows = .ok r ∧ (List.range n).flatMap out = [r] := by
  have hlt : bucketOf [] n < n := hashPartition_lt [] hn
  have hothers : ∀ i < n, i ≠ bucketOf [] n → share i = [] := by
    intro i hi hne
    refine List.eq_nil_iff_forall_not_mem.mpr fun r hr => hne ?_
    exact (hshare i hi r hr).symm
  have hout : (List.range n).flatMap out = out (bucketOf [] n) := by
    refine flatMap_range_alone hlt fun i hi hne => ?_
    obtain ⟨entries, htally, hwrote⟩ := h i hi
    rw [hothers i hi hne] at htally hwrote
    rw [howner i, if_neg (by simpa using Ne.symm hne), htally.entries_nil] at hwrote
    exact hwrote
  have hrows : rows.Perm (share (bucketOf [] n)) := flatMap_range_alone hlt hothers ▸ hp
  obtain ⟨entries, htally, hwrote⟩ := h _ hlt
  rw [hout]
  by_cases hnil : share (bucketOf [] n) = []
  · rw [howner, if_pos ⟨hnil, rfl, by simp⟩] at hwrote
    obtain ⟨r, hrow, hwrote⟩ := hwrote
    rw [hnil] at hrows
    exact ⟨r, hrows.eq_nil ▸ hrow, hwrote⟩
  · rw [if_neg (fun hw => hnil hw.1)] at hwrote
    obtain ⟨r, hrow, hentries⟩ := htally.meaning_nil hnil
    refine ⟨r, ?_, by rw [hwrote, hentries]⟩
    exact groupRow_perm hg hrows.symm (fun t ht => hr t (hrows.mem_iff.mpr ht)) [] (fun _ _ => rfl) hrow

/-- The rows of all workers are the groups of the plan over all rows. -/
theorem workers_mean (hn : 0 < n) (hg : Groupable columns keyColumns slots)
    (hr : ∀ r ∈ rows, r.Groupable columns keyColumns)
    (hp : rows.Perm ((List.range n).flatMap share))
    (hshare : ∀ i < n, ∀ r ∈ share i, bucketOf (groupKey keyColumns r) n = i)
    {emptyRow : Nat → Bool} (howner : keyColumns = [] → ∀ i, emptyRow i = (bucketOf [] n == i))
    {out : Nat → List Row}
    (h : ∀ i < n, Wrote keyColumns slots (emptyRow i) (share i) (out i)) :
    ∃ all, (groupsOf keyColumns rows).mapM (groupRow keyColumns slots) = .ok all ∧
      ((List.range n).flatMap out).Perm all := by
  by_cases hk : keyColumns = []
  · subst hk
    obtain ⟨r, hrow, hout⟩ := workers_mean_nil hn hg hr hp hshare (howner rfl) h
    rw [groupsOf, if_pos rfl]
    exact ⟨[r], mapM_eq_ok (.cons hrow .nil), .of_eq hout⟩
  · have hentries : ∀ i, ∃ entries, i < n →
        Tallied keyColumns slots (share i) entries ∧ out i = entries.map Prod.snd := by
      intro i
      by_cases hi : i < n
      · obtain ⟨entries, htally, hwrote⟩ := h i hi
        rw [if_neg (fun hw => hk hw.2.1)] at hwrote
        exact ⟨entries, fun _ => ⟨htally, hwrote⟩⟩
      · exact ⟨[], fun hlt => absurd hlt hi⟩
    choose entries hentries using hentries
    have htally := Tallied.union hg hr hp hshare fun i hi => (hentries i hi).1
    obtain ⟨all, hall, hperm⟩ := htally.meaning hk
    refine ⟨all, hall, ?_⟩
    have hout : (List.range n).flatMap out = ((List.range n).flatMap entries).map Prod.snd := by
      rw [List.map_flatMap]
      exact List.flatMap_congr fun i hi => (hentries i (List.mem_range.mp hi)).2
    rw [hout]
    exact hperm

end Workers

end Tally

end QueryCluster
