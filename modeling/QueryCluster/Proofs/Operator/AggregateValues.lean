import QueryCluster.Proofs.Operator.GroupTypes

/-!
# What aggregates come to

The value of an aggregate over the rows of a group, said by what it is and not by how it is found: how
many rows or values there are, their exact sum, and of the least or the greatest values the first. Only a
sum can fail. It fails just when the values up to some row have a sum that is no 64-bit integer, even if
the sum of all is one.
-/
namespace QueryCluster

def Totals (vs : List Value) (n : Int) : Prop :=
  ∃ xs, List.Forall₂ (fun v x => v.toInt? = some x) vs xs ∧ xs.sum = n

/-- What a 64-bit integer can be. -/
def Storable (n : Int) : Prop := Int64.minValue.toInt ≤ n ∧ n ≤ Int64.maxValue.toInt

/-- Values of which some from the first on have a sum that is no 64-bit integer. -/
def Overflows (vs : List Value) : Prop := ∃ front n, front <+: vs ∧ Totals front n ∧ ¬ Storable n

namespace Totals

variable {v : Value} {vs : List Value} {x n : Int}

theorem nil_iff : Totals [] n ↔ n = 0 := by
  refine ⟨fun ⟨xs, hxs, hsum⟩ => ?_, fun hn => ⟨[], .nil, hn.symm⟩⟩
  cases hxs
  exact hsum.symm

theorem cons (hv : v.toInt? = some x) (h : Totals vs n) : Totals (v :: vs) (x + n) := by
  obtain ⟨xs, hxs, rfl⟩ := h
  exact ⟨x :: xs, .cons hv hxs, List.sum_cons⟩

theorem of_cons (hv : v.toInt? = some x) (h : Totals (v :: vs) n) : ∃ m, Totals vs m ∧ n = x + m := by
  obtain ⟨_, _ | ⟨hx, hxs⟩, rfl⟩ := h
  obtain rfl := Option.some.inj (hx.symm.trans hv)
  exact ⟨_, ⟨_, hxs, rfl⟩, List.sum_cons⟩

end Totals

namespace Accumulator

variable {sum : Option Int} {vs : List Value} {a b : Accumulator} {e : ArithmeticFault}

theorem add_wholeSum {v : Value} {x : Int} (hv : v.toInt? = some x) :
    add v (wholeSum sum) =
      if Int64.minValue.toInt ≤ sum.getD 0 + x ∧ sum.getD 0 + x ≤ Int64.maxValue.toInt then
        .ok (wholeSum (some (sum.getD 0 + x))) else .error .overflow := by
  rw [add, hv]
  simp only [addWhole]
  split <;> rfl

/-- A sum that fails has left its range with one of the values. -/
theorem overflows_of_foldlM (hwhole : ∀ v ∈ vs, ∃ x, v.toInt? = some x)
    (h : vs.foldlM (fun a v => add v a) (wholeSum sum) = .error e) :
    e = .overflow ∧ ∃ front n, front <+: vs ∧ Totals front n ∧ ¬ Storable (sum.getD 0 + n) := by
  induction vs generalizing sum with
  | nil => cases h
  | cons v vs ih =>
    obtain ⟨⟨x, hx⟩, hvs⟩ := List.forall_mem_cons.mp hwhole
    rw [List.foldlM_cons, add_wholeSum hx] at h
    split at h
    · obtain ⟨he, front, n, hfront, htotal, hout⟩ := ih hvs h
      refine ⟨he, v :: front, x + n, (List.prefix_cons_inj v).mpr hfront, htotal.cons hx, ?_⟩
      rwa [← Int.add_assoc]
    · rename_i hout
      refine ⟨(Except.error.inj h).symm, [v], x + 0, ⟨vs, rfl⟩, (Totals.nil_iff.mpr rfl).cons hx, ?_⟩
      rwa [Int.add_zero]

/-- A sum that ends well has stayed in its range with every value. -/
theorem storable_of_foldlM (hwhole : ∀ v ∈ vs, ∃ x, v.toInt? = some x)
    (h : vs.foldlM (fun a v => add v a) (wholeSum sum) = .ok a) {front : List Value} {n : Int}
    (hfront : front <+: vs) (hne : front ≠ []) (htotal : Totals front n) :
    Storable (sum.getD 0 + n) := by
  induction vs generalizing sum front n with
  | nil => exact absurd (List.prefix_nil.mp hfront) hne
  | cons v vs ih =>
    obtain ⟨⟨x, hx⟩, hvs⟩ := List.forall_mem_cons.mp hwhole
    obtain _ | ⟨u, front⟩ := front
    · exact absurd rfl hne
    obtain ⟨rfl, hrest⟩ := List.cons_prefix_cons.mp hfront
    obtain ⟨m, hm, rfl⟩ := htotal.of_cons hx
    rw [List.foldlM_cons, add_wholeSum hx] at h
    split at h
    · rename_i hrange
      by_cases hnil : front = []
      · subst hnil
        rw [Totals.nil_iff.mp hm, Int.add_zero]
        exact hrange
      · rw [← Int.add_assoc]
        exact ih hvs h hrest hnil hm
    · cases h

theorem foldlM_wholeSum_eq_error (hwhole : ∀ v ∈ vs, ∃ x, v.toInt? = some x) :
    vs.foldlM (fun a v => add v a) (wholeSum none) = .error e ↔ e = .overflow ∧ Overflows vs := by
  have hbase : ∀ n, (none : Option Int).getD 0 + n = n := Int.zero_add
  refine ⟨fun h => ?_, fun ⟨he, front, n, hfront, htotal, hout⟩ => ?_⟩
  · obtain ⟨he, front, n, hfront, htotal, hout⟩ := overflows_of_foldlM hwhole h
    exact ⟨he, front, n, hfront, htotal, hbase n ▸ hout⟩
  · rcases h : vs.foldlM (fun a v => add v a) (wholeSum none) with e' | a
    · rw [he, (overflows_of_foldlM hwhole h).1]
    · refine absurd ?_ hout
      by_cases hnil : front = []
      · subst hnil
        rw [Totals.nil_iff.mp htotal]
        exact ⟨by decide, by decide⟩
      · exact hbase n ▸ storable_of_foldlM hwhole h hfront hnil htotal

end Accumulator

/-- What an aggregate comes to over the rows of a group, by the column of its argument. -/
inductive AggregateFunction.ComesTo (rows : List Row) :
    AggregateFunction → Option Nat → Value → Prop
  | rows : ComesTo rows .count none (.int64 (Int64.ofNat rows.length))
  | values (c : Nat) :
      ComesTo rows .count (some c) (.int64 (Int64.ofNat (Aggregate.present c rows).length))
  | nothing {func : AggregateFunction} {c : Nat} (hfunc : func ≠ .count)
      (hnone : Aggregate.present c rows = []) : ComesTo rows func (some c) .null
  | sum {c : Nat} {n : Int64} (hsome : Aggregate.present c rows ≠ [])
      (htotal : Totals (Aggregate.present c rows) n.toInt) : ComesTo rows .sum (some c) (.int64 n)
  | least {c : Nat} {before after : List Value} {v : Value}
      (hvalues : Aggregate.present c rows = before ++ v :: after)
      (hbefore : ∀ u ∈ before, v.natural u = .lt) (hafter : ∀ u ∈ after, u.natural v ≠ .lt) :
      ComesTo rows .min (some c) v
  | greatest {c : Nat} {before after : List Value} {v : Value}
      (hvalues : Aggregate.present c rows = before ++ v :: after)
      (hbefore : ∀ u ∈ before, v.natural u = .gt) (hafter : ∀ u ∈ after, u.natural v ≠ .gt) :
      ComesTo rows .max (some c) v

/-- An aggregate that adds up no floats and is over a column that its function can have. -/
structure AggregateSlot.Defined (schema : Schema) (s : AggregateSlot) : Prop where
  exact : s.Exact
  whole : s.func = .sum → ∃ c f, s.argument = some c ∧ schema.columns[c]? = some f ∧
    f.type.isNumeric ∧ f.type.isFloat = false
  extreme : s.func = .min ∨ s.func = .max → ∃ c f, s.argument = some c ∧ schema.columns[c]? = some f

section Slots

variable {schema : Schema} {s : AggregateSlot} {rows : List Row}

theorem slot_defined {a : Aggregate} (h : Aggregate.slot schema a = .ok s) (havg : a.func ≠ .avg)
    (hsum : a.func = .sum → s.result.isFloat = false) : s.Defined schema := by
  obtain ⟨hfunc, hargument, htype⟩ := slot_ok h
  obtain ⟨argument, hover, hsome, hnone⟩ := typeIn_ok htype
  -- a column that has a type stands somewhere in the schema
  have hcolumn : ∀ u, argument = some u →
      ∃ c f, s.argument = some c ∧ schema.columns[c]? = some f ∧ f.type = u := by
    intro u hu
    rcases hname : a.column with _ | name
    · rw [hnone hname] at hu
      cases hu
    · obtain ⟨v, hv, rfl⟩ := hsome name hname
      rcases hc : s.argument with _ | c
      · rw [hc, Grouping.argumentColumn, hname] at hargument
        dsimp only at hargument
        split at hargument <;> cases hargument
      · rw [hc] at hargument
        obtain ⟨name', f, hname', hf, hft⟩ := argumentColumn_ok hargument
        obtain rfl : name = name' := Option.some.inj (hname.symm.trans hname')
        obtain rfl : f.type = v := Except.ok.inj (hft.symm.trans hv)
        exact ⟨c, f, rfl, hf, Option.some.inj hu⟩
  have hgives := gives_of_typeOver? hover
  rw [← hfunc] at hgives havg hsum
  rcases s with ⟨func, result, slotArgument⟩
  dsimp only at hgives havg hsum
  refine ⟨⟨havg, hsum⟩, fun hs => ?_, fun hs => ?_⟩
  · obtain rfl : func = .sum := hs
    cases hgives with
    | wholeSum hnumeric hwhole =>
      obtain ⟨c, f, hc, hf, rfl⟩ := hcolumn _ rfl
      exact ⟨c, f, hc, hf, hnumeric, hwhole⟩
    | realSum hreal => cases hsum rfl
  · cases hgives with
    | least | greatest =>
      obtain ⟨c, f, hc, hf, _⟩ := hcolumn _ rfl
      exact ⟨c, f, hc, hf⟩
    | count | wholeSum | realSum | average => simp at hs

theorem present_conforms (hr : ∀ r ∈ rows, r.Conforms schema) {c : Nat} {f : Field}
    (hf : schema.columns[c]? = some f) :
    ∀ v ∈ Aggregate.present c rows, v.Fits f.type ∧ ¬ v.isNull := by
  intro v hv
  obtain ⟨hvalue, hnull⟩ := List.mem_filter.mp hv
  obtain ⟨r, hmem, rfl⟩ := List.mem_map.mp hvalue
  exact ⟨(hr r hmem).withoutKeys.valueAt_fits hf, by simpa using hnull⟩

theorem whole_of_fits {v : Value} {t : DataType} (hnumeric : t.isNumeric) (hwhole : t.isFloat = false)
    (hv : v.Fits t) (hnull : ¬ v.isNull) : ∃ x, v.toInt? = some x := by
  rcases hv with rfl | hv
  · exact absurd rfl hnull
  · cases v with
    | null => cases hv
    | int32 | int64 => exact ⟨_, rfl⟩
    | float32 | float64 => cases hv; cases hwhole
    | bool | text | bytes => cases hv; cases hnumeric

/-- An accumulator over the rows of a group fails just when it is a sum that overflows. -/
theorem takeIn_eq_error (hs : s.Defined schema) (hr : ∀ r ∈ rows, r.Conforms schema) {e : ArithmeticFault} :
    (Accumulator.start s.func s.result).takeIn s.argument rows = .error e ↔
      e = .overflow ∧ s.func = .sum ∧ ∃ c, s.argument = some c ∧ Overflows (Aggregate.present c rows) := by
  rcases s with ⟨func, result, argument⟩
  obtain ⟨⟨havg, hsum⟩, hwhole, hextreme⟩ := hs
  dsimp only at *
  cases func with
  | avg => exact absurd rfl havg
  | sum =>
    obtain ⟨c, f, rfl, hf, hnumeric, hfloat⟩ := hwhole rfl
    have hvalues : ∀ v ∈ Aggregate.present c rows, ∃ x, v.toInt? = some x := fun v hv =>
      whole_of_fits hnumeric hfloat (present_conforms hr hf v hv).1 (present_conforms hr hf v hv).2
    have hstart : Accumulator.start .sum result = .wholeSum none := by
      rw [Accumulator.start, hsum rfl, if_neg (by simp)]
    rw [hstart, Accumulator.takeIn_some, Accumulator.foldlM_wholeSum_eq_error hvalues]
    simp
  | count =>
    refine ⟨fun h => ?_, fun h => absurd h.2.1 (by simp)⟩
    have hok : ∃ a, (Accumulator.count 0).takeIn argument rows = .ok a := by
      cases argument with
      | none => exact ⟨_, Accumulator.takeIn_none_count 0 rows⟩
      | some c => exact ⟨_, (Accumulator.takeIn_some c _ rows).trans (Accumulator.foldlM_count 0 _)⟩
    obtain ⟨a, ha⟩ := hok
    cases ha.symm.trans h
  | min =>
    obtain ⟨c, _, rfl, _⟩ := hextreme (.inl rfl)
    refine ⟨fun h => ?_, fun h => absurd h.2.1 (by simp)⟩
    cases ((Accumulator.takeIn_some c _ rows).trans (Accumulator.foldlM_least none _)).symm.trans h
  | max =>
    obtain ⟨c, _, rfl, _⟩ := hextreme (.inr rfl)
    refine ⟨fun h => ?_, fun h => absurd h.2.1 (by simp)⟩
    cases ((Accumulator.takeIn_some c _ rows).trans (Accumulator.foldlM_greatest none _)).symm.trans h

theorem comesTo_of_wholeSumOf {c : Nat} {v : Value}
    (h : Aggregate.wholeSumOf (Aggregate.present c rows) = .ok v) :
    AggregateFunction.ComesTo rows .sum (some c) v := by
  obtain ⟨xs, hxs, h⟩ := bind_ok h
  have hwhole : List.Forall₂ (fun v x => v.toInt? = some x) (Aggregate.present c rows) xs := by
    refine (mapM_ok hxs).imp fun v x hx => ?_
    rw [Aggregate.wholeOf] at hx
    split at hx
    · rename_i hv
      rw [hv, Except.ok.inj hx]
    · cases hx
  split at h
  · rename_i hnil
    cases h
    rw [hnil] at hwhole
    exact .nothing (by simp) (List.forall₂_nil_right_iff.mp hwhole)
  rename_i hne
  split at h
  · rename_i hrange
    cases h
    have hsum : (Int64.ofInt xs.sum).toInt = xs.sum := by
      refine Int64.toInt_ofInt_of_le ?_ ?_
      · exact hrange.1
      · exact Int.lt_of_le_of_lt hrange.2 (by decide)
    refine .sum (fun hnil => hne ?_) ⟨xs, hwhole, hsum.symm⟩
    rw [hnil] at hwhole
    exact List.forall₂_nil_left_iff.mp hwhole
  · cases h

theorem comesTo_of_takeIn (hs : s.Defined schema) (hr : ∀ r ∈ rows, r.Conforms schema) {a : Accumulator}
    (h : (Accumulator.start s.func s.result).takeIn s.argument rows = .ok a) :
    s.func.ComesTo rows s.argument a.result := by
  have hvalue := valueOver_of_takeIn hs.exact h
  rcases s with ⟨func, result, argument⟩
  obtain ⟨⟨havg, hsum⟩, hwhole, hextreme⟩ := hs
  dsimp only at *
  cases func with
  | avg => exact absurd rfl havg
  | count =>
    cases argument with
    | none => exact Except.ok.inj hvalue ▸ .rows
    | some c => exact Except.ok.inj hvalue ▸ .values c
  | sum =>
    obtain ⟨c, _, rfl, _⟩ := hwhole rfl
    have hsum : Aggregate.valueOver .sum result (some c) rows =
        Aggregate.wholeSumOf (Aggregate.present c rows) := if_neg (by simp [hsum rfl])
    exact comesTo_of_wholeSumOf (hsum.symm.trans hvalue)
  | min =>
    obtain ⟨c, f, rfl, hf⟩ := hextreme (.inl rfl)
    obtain ⟨hnil, hv⟩ | ⟨before, m, after, hsplit, hv, hbefore, hafter⟩ := Aggregate.extremeOf_getD
      (by decide : Ordering.lt ≠ .eq) fun v hv => (present_conforms hr hf v hv).1
    · exact (hv.symm.trans (Except.ok.inj hvalue)) ▸ .nothing (by simp) hnil
    · exact (hv.symm.trans (Except.ok.inj hvalue)) ▸ .least hsplit hbefore hafter
  | max =>
    obtain ⟨c, f, rfl, hf⟩ := hextreme (.inr rfl)
    obtain ⟨hnil, hv⟩ | ⟨before, m, after, hsplit, hv, hbefore, hafter⟩ := Aggregate.extremeOf_getD
      (by decide : Ordering.gt ≠ .eq) fun v hv => (present_conforms hr hf v hv).1
    · exact (hv.symm.trans (Except.ok.inj hvalue)) ▸ .nothing (by simp) hnil
    · exact (hv.symm.trans (Except.ok.inj hvalue)) ▸ .greatest hsplit hbefore hafter

end Slots

end QueryCluster
