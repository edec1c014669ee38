import QueryCluster.Proofs.Operator.Conformity
import QueryCluster.Proofs.Operator.GroupRun

/-!
# Types of aggregates

An accumulator has a shape from its function, and keeps it with all that it takes in: what it comes to in
the end is null or of the type that the plan gives the aggregate, floats or not. So the rows of a grouping
conform to the schema of its stage.
-/
namespace QueryCluster

/-- The types of aggregates: counts and integer sums are 64-bit integers, float sums and averages are
doubles, and the least and the greatest value have the type of the argument. -/
inductive AggregateFunction.Gives : AggregateFunction → Option DataType → DataType → Prop
  | count {argument : Option DataType} : Gives .count argument .int64
  | wholeSum {t : DataType} (hnumeric : t.isNumeric) (hwhole : t.isFloat = false) :
      Gives .sum (some t) .int64
  | realSum {t : DataType} (hreal : t.isFloat) : Gives .sum (some t) .float64
  | average {t : DataType} (hnumeric : t.isNumeric) : Gives .avg (some t) .float64
  | least {t : DataType} : Gives .min (some t) t
  | greatest {t : DataType} : Gives .max (some t) t

theorem gives_of_typeOver? {func : AggregateFunction} {argument : Option DataType} {t : DataType}
    (h : Aggregate.typeOver? func argument = some t) : func.Gives argument t := by
  cases func with
  | count =>
    cases h
    exact .count
  | sum =>
    rcases argument with _ | u
    · cases h
    have h : (if u.isFloat then some DataType.float64 else if u.isNumeric then some .int64 else none) =
      some t := h
    by_cases hu : u.isFloat
    · rw [if_pos hu] at h
      cases h
      exact .realSum hu
    · rw [if_neg hu] at h
      split at h
      · rename_i hnumeric
        cases h
        exact .wholeSum hnumeric (by simpa using hu)
      · cases h
  | min =>
    rcases argument with _ | u
    · cases h
    · cases h
      exact .least
  | max =>
    rcases argument with _ | u
    · cases h
    · cases h
      exact .greatest
  | avg =>
    rcases argument with _ | u
    · cases h
    have h : (if u.isNumeric then some DataType.float64 else none) = some t := h
    split at h
    · rename_i hnumeric
      cases h
      exact .average hnumeric
    · cases h

/-- An accumulator of a function whose result has some type. -/
def Accumulator.Makes (t : DataType) : AggregateFunction → Accumulator → Prop
  | .count, count _ => t = .int64
  | .sum, wholeSum _ => t = .int64
  | .sum, realSum _ => t = .float64
  | .avg, average _ _ => t = .float64
  | .min, least v => ∀ w ∈ v, w.Fits t
  | .max, greatest v => ∀ w ∈ v, w.Fits t
  | _, _ => False

namespace Accumulator

variable {t : DataType} {func : AggregateFunction} {a b : Accumulator}

theorem makes_start {argument : Option DataType} (h : func.Gives argument t) :
    (start func t).Makes t func := by
  cases h with
  | count | wholeSum | realSum | average => rfl
  | least | greatest => exact nofun

theorem Makes.fits (h : a.Makes t func) : a.result.Fits t := by
  cases func <;> cases a <;> simp only [Makes] at h
  case count.count => exact .inr (congrArg some h.symm)
  case sum.wholeSum sum =>
    cases sum with
    | none => exact .inl rfl
    | some i => exact .inr (congrArg some h.symm)
  case sum.realSum sum =>
    cases sum with
    | none => exact .inl rfl
    | some d => exact .inr (congrArg some h.symm)
  case min.least v =>
    cases v with
    | none => exact .inl rfl
    | some w => exact h w rfl
  case max.greatest v =>
    cases v with
    | none => exact .inl rfl
    | some w => exact h w rfl
  case avg.average sum n =>
    rw [result]
    split
    · exact .inl rfl
    · exact .inr (congrArg some h.symm)

/-- The better of two values of a type. -/
theorem fits_of_chosen {p : Prop} [Decidable p] {v w : Value} {best : Option Value} (hv : v.Fits t)
    (hbest : ∀ u ∈ best, u.Fits t) (hw : w ∈ if p then some v else best) : w.Fits t := by
  split at hw
  · cases hw
    exact hv
  · exact hbest w hw

theorem Makes.add (h : a.Makes t func) {v : Value} (hv : func = .min ∨ func = .max → v.Fits t)
    (hb : a.add v = .ok b) : b.Makes t func := by
  cases func <;> cases a <;> simp only [Makes] at h
  case count.count =>
    cases hb
    exact h
  case sum.wholeSum sum =>
    rw [Accumulator.add] at hb
    split at hb
    · obtain ⟨next, _, rfl⟩ := map_ok hb
      exact h
    · cases hb
  case sum.realSum sum =>
    rw [Accumulator.add] at hb
    split at hb
    · cases hb
      exact h
    · cases hb
  case min.least m =>
    cases hb
    intro w hw
    rcases m with _ | u
    · cases hw
      exact hv (.inl rfl)
    · exact fits_of_chosen (p := v.natural u = .lt) (hv (.inl rfl)) h hw
  case max.greatest m =>
    cases hb
    intro w hw
    rcases m with _ | u
    · cases hw
      exact hv (.inr rfl)
    · exact fits_of_chosen (p := v.natural u = .gt) (hv (.inr rfl)) h hw
  case avg.average sum n =>
    rw [Accumulator.add] at hb
    split at hb
    · cases hb
      exact h
    · cases hb

theorem Makes.update (h : a.Makes t func) {v : Option Value}
    (hv : func = .min ∨ func = .max → ∀ w ∈ v, w.Fits t) (hb : a.update v = .ok b) :
    b.Makes t func := by
  rcases v with _ | v
  · cases a with
    | count n =>
      cases hb
      cases func <;> exact h
    | _ =>
      cases hb
      exact h
  · rw [Accumulator.update] at hb
    split at hb
    · cases hb
      exact h
    · exact h.add (fun hf => hv hf v rfl) hb

theorem Makes.takeIn (h : a.Makes t func) {argument : Option Nat} {rows : List Row}
    (hv : func = .min ∨ func = .max → ∀ c ∈ argument, ∀ r ∈ rows, (Grouping.valueAt r c).Fits t)
    (hb : a.takeIn argument rows = .ok b) : b.Makes t func := by
  induction rows generalizing a with
  | nil =>
    cases hb
    exact h
  | cons r rows ih =>
    rw [Accumulator.takeIn, List.foldlM_cons] at hb
    obtain ⟨c, hc, hb⟩ := bind_ok hb
    refine ih (h.update (fun hf w hw => ?_) hc) (fun hf c hc s hs => ?_) hb
    · obtain ⟨c, hc, rfl⟩ := Option.map_eq_some_iff.mp hw
      exact hv hf c hc r List.mem_cons_self
    · exact hv hf c hc s (List.mem_cons_of_mem r hs)

end Accumulator

section Resolve

variable {schema output : Schema} {keys : List String} {aggregates : List Aggregate}

/-- A worker finds the columns that the stage was typed with, and gives them the same types. -/
theorem resolve_of_schemaOver (h : (Stage.group keys aggregates).schemaOver schema = .ok output) :
    ∃ g, Grouping.resolve keys aggregates schema = .ok g ∧ g.output = output := by
  obtain ⟨ks, as, hcolumns, rfl⟩ := groupColumns_ok h
  have hkeys : ∀ k ∈ keys, ∃ c, Grouping.keyColumn schema k = .ok c := fun k hk => by
    obtain ⟨f, _, hf⟩ := exists_of_forall₂ hcolumns.keys.flip hk
    obtain ⟨i, _, hi, _⟩ := Schema.typeOf_ok hf.type
    exact ⟨i, by rw [Grouping.keyColumn, hi]⟩
  have htypes : ∀ a ∈ aggregates, ∃ t, a.typeIn schema = .ok t := fun a ha => by
    obtain ⟨f, _, hf⟩ := exists_of_forall₂ hcolumns.aggregates.flip ha
    exact ⟨f.type, hf.type⟩
  have harguments : ∀ a ∈ aggregates, ∃ c, Grouping.argumentColumn schema a = .ok c := fun a ha => by
    obtain ⟨t, ht⟩ := htypes a ha
    obtain ⟨_, _, hsome, _⟩ := typeIn_ok ht
    rw [Grouping.argumentColumn]
    rcases hc : a.column with _ | name
    · exact ⟨none, rfl⟩
    · obtain ⟨u, hu, _⟩ := hsome name hc
      obtain ⟨i, _, hi, _⟩ := Schema.typeOf_ok hu
      exact ⟨some i, by simp only [hi]⟩
  obtain ⟨keyColumns, hkeyColumns⟩ := exists_mapM_ok hkeys
  obtain ⟨arguments, harguments⟩ := exists_mapM_ok harguments
  obtain ⟨types, htypes⟩ := exists_mapM_ok (f := fun a : Aggregate =>
    (a.typeIn schema).mapError OperatorError.ofType) fun a ha => by
      obtain ⟨t, ht⟩ := htypes a ha
      exact ⟨t, by rw [ht]; rfl⟩
  obtain ⟨g, hg⟩ : ∃ g, Grouping.resolve keys aggregates schema = .ok g := by
    rw [Grouping.resolve, hkeyColumns, harguments, htypes]
    exact ⟨_, rfl⟩
  obtain ⟨_, _, _, _, ks', as', hcolumns', houtput⟩ := resolve_ok hg
  obtain ⟨rfl, rfl⟩ := hcolumns.unique hcolumns'
  exact ⟨g, hg, houtput⟩

variable {g : Grouping} {slots : List AggregateSlot} {keyColumns : List Nat} {ks as : List Field}
  {rows : List Row}

/-- What an accumulator of a slot comes to over typed rows has the type of the slot. -/
theorem slot_fits {a : Aggregate} {s : AggregateSlot} (h : Aggregate.slot schema a = .ok s)
    (hr : ∀ r ∈ rows, r.Conforms schema) {b : Accumulator}
    (hb : (Accumulator.start s.func s.result).takeIn s.argument rows = .ok b) :
    b.result.Fits s.result := by
  obtain ⟨hfunc, hargument, htype⟩ := slot_ok h
  obtain ⟨argument, hover, hsome, hnone⟩ := typeIn_ok htype
  rw [← hfunc] at hover
  refine ((Accumulator.makes_start (gives_of_typeOver? hover)).takeIn (fun hf c hc r hmem => ?_) hb).fits
  rw [Option.mem_def.mp hc] at hargument
  obtain ⟨name, f, hname, hcolumn, hft⟩ := argumentColumn_ok hargument
  obtain ⟨u, hu, rfl⟩ := hsome name hname
  obtain rfl : f.type = u := Except.ok.inj (hft.symm.trans hu)
  have hresult : s.result = f.type := by
    rcases hf with hf | hf <;> rw [hf] at hover <;> exact (Option.some.inj hover).symm
  rw [hresult]
  exact (hr r hmem).withoutKeys.valueAt_fits hcolumn

theorem Group.Holds.row_typed {x : Group} (hx : x.Holds keyColumns slots rows)
    (hc : GroupColumns schema keys aggregates ks as)
    (hk : keys.mapM (Grouping.keyColumn schema) = .ok keyColumns)
    (hs : aggregates.mapM (Aggregate.slot schema) = .ok slots)
    (hr : ∀ r ∈ rows, r.Conforms schema) : x.row.Typed (ks ++ as) := by
  refine ⟨List.rel_append ?_ ?_, rfl, rfl⟩
  · rw [hx.values]
    have htyped : ∀ r ∈ rows.map Row.withoutKeys, r.Typed schema.columns :=
      List.forall_mem_map.mpr fun r hmem => (hr r hmem).withoutKeys
    have hkeys := keyValues_fit hc.keys hk htyped
    rw [List.head?_map] at hkeys
    simp only [Option.map_map] at hkeys
    exact hkeys
  · rw [List.forall₂_map_right_iff]
    have hfields := forall₂_of_common (mapM_ok hs) hc.aggregates
    refine (forall₂_of_common hfields hx.accumulators).imp fun f b h => ?_
    obtain ⟨s, _, ⟨a, _, hslot, hfield⟩, hb⟩ := h
    have hsame : f.type = s.result := Except.ok.inj (hfield.type.symm.trans (slot_ok hslot).2.2)
    rw [hsame]
    exact slot_fits hslot hr hb

/-- All groups that are written hold some of the rows. -/
theorem Grouped.closed_holds {groups : List Group} {emptyRow : Bool} (hg : g.Over slots)
    (h : Grouped g slots rows groups) {x : Group} (hx : x ∈ g.closed emptyRow groups) :
    ∃ sub, (∀ r ∈ sub, r ∈ rows) ∧ x.Holds g.keyColumns slots sub := by
  rw [Grouping.closed] at hx
  split at hx
  · rename_i hempty
    have hkeys : g.keyColumns = [] := by
      simp only [Bool.and_eq_true, List.isEmpty_iff] at hempty
      exact hempty.1.2
    obtain rfl := List.mem_singleton.mp hx
    exact ⟨[], by simp, by rw [hkeys]; rfl, hg.fresh ▸ accumulated_fresh slots⟩
  · exact ⟨_, fun r hr => List.mem_of_mem_filter hr, h.holds x hx⟩

end Resolve

theorem groupProcess_conforms {input output : Schema} {keys : List String} {aggregates : List Aggregate}
    (emptyRow : Bool) (batchRows : Nat)
    (h : (Stage.group keys aggregates).schemaOver input = .ok output) :
    ∃ p inv, groupProcess keys aggregates emptyRow batchRows input = .ok p ∧
      p.Conforms input output inv := by
  obtain ⟨g, hg, rfl⟩ := resolve_of_schemaOver h
  obtain ⟨hkeys, slots, hslots, hover, ks, as, hcolumns, houtput⟩ := resolve_ok hg
  obtain ⟨p, hp⟩ : ∃ p, groupProcess keys aggregates emptyRow batchRows input = .ok p := by
    rw [groupProcess, hg]
    exact ⟨_, rfl⟩
  obtain ⟨g', hg', hschema, hstart, hfinish, hstep⟩ := groupProcess_ok hp
  obtain rfl : g = g' := Except.ok.inj (hg.symm.trans hg')
  -- the groups so far are those of all rows that came in
  refine ⟨p, fun groups => ∃ rows, (∀ r ∈ rows, r.Conforms input) ∧ Grouped g slots rows groups, hp,
    hschema, ?_, fun groups x _ _ => ?_, fun groups x groups' out hgroups hx h => ?_,
    fun groups hgroups t ht => ?_⟩
  · rw [hstart]
    exact ⟨[], by simp, Grouped.start⟩
  · rw [groupProcess, hg] at hp
    cases hp
    refine FailsWith.bind (FailsWith.mapError fun _ _ => id) fun _ _ => failsWith_ok _
  · obtain ⟨rows, hrows, hgrouped⟩ := hgroups
    obtain ⟨rfl, hadd⟩ := hstep groups x groups' out h
    refine ⟨⟨rows ++ x.rows, fun r hr => ?_, hgrouped.addRows hover hadd⟩, by simp⟩
    exact (List.mem_append.mp hr).elim (hrows r) (hx.rows r)
  · obtain ⟨rows, hrows, hgrouped⟩ := hgroups
    rw [hfinish] at ht
    refine conforms_batches ⟨rfl, fun r hr => ?_⟩ (by omega) t ht
    obtain ⟨x, hx, rfl⟩ := List.mem_map.mp hr
    obtain ⟨sub, hsub, hholds⟩ := hgrouped.closed_holds hover hx
    have htyped := hholds.row_typed hcolumns hkeys hslots fun r hr => hrows r (hsub r hr)
    rw [houtput]
    exact Row.Typed.conforms { columns := ks ++ as } htyped rfl

end QueryCluster
