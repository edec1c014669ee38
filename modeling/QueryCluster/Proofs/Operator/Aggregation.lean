import Mathlib.Algebra.BigOperators.Group.List.Basic
import Mathlib.Data.List.Induction
import QueryCluster.Proofs.Outcome
import QueryCluster.Proofs.Plan.Meaning
import QueryCluster.Proofs.Value.Typing

/-!
# Aggregates do not depend on the order of rows

An accumulator that has taken in the rows of a group holds what the aggregate means over them. That
meaning stays the same if the rows come in another order: a count and an exact sum do not know the
order, and among values of one type that is not a float the least and the greatest are unique.
-/
namespace QueryCluster

namespace Accumulator

/-- Takes in the argument of row after row. -/
def takeIn (argument : Option Nat) (a : Accumulator) (rows : List Row) :
    Except ArithmeticFault Accumulator :=
  rows.foldlM (fun a r => a.update (argument.map (Grouping.valueAt r))) a

theorem takeIn_append_ok {argument : Option Nat} {a b c : Accumulator} {rows : List Row} {r : Row}
    (hb : a.takeIn argument rows = .ok b)
    (hc : b.update (argument.map (Grouping.valueAt r)) = .ok c) :
    a.takeIn argument (rows ++ [r]) = .ok c := by
  rw [takeIn] at hb
  rw [takeIn, List.foldlM_append, hb]
  simp only [bind, Except.bind, List.foldlM_cons, hc, List.foldlM_nil]
  rfl

/-- Nulls are passed over. -/
theorem takeIn_some (c : Nat) (a : Accumulator) (rows : List Row) :
    a.takeIn (some c) rows = (Aggregate.present c rows).foldlM (fun a v => a.add v) a := by
  induction rows generalizing a with
  | nil => rfl
  | cons r rows ih =>
    rw [takeIn, List.foldlM_cons, Aggregate.present, List.map_cons]
    by_cases hn : (Grouping.valueAt r c).isNull
    · rw [List.filter_cons_of_neg (by simp [hn])]
      simp only [Option.map_some, update, hn, if_true]
      exact ih a
    · rw [List.filter_cons_of_pos (by simpa using hn), List.foldlM_cons]
      simp only [Option.map_some, update, hn]
      rcases a.add (Grouping.valueAt r c) with e | b
      · rfl
      · exact ih b

theorem takeIn_none_count (n : Nat) (rows : List Row) :
    (count n).takeIn none rows = .ok (count (n + rows.length)) := by
  induction rows generalizing n with
  | nil => rfl
  | cons r rows ih =>
    have := ih (n + 1)
    rw [Nat.add_assoc, Nat.add_comm 1] at this
    exact this

theorem takeIn_none {a : Accumulator} (h : ∀ n, a ≠ count n) (rows : List Row) :
    a.takeIn none rows = .ok a := by
  induction rows with
  | nil => rfl
  | cons r rows ih =>
    have hu : a.update none = .ok a := by
      cases a with
      | count n => exact absurd rfl (h n)
      | _ => rfl
    rw [takeIn, List.foldlM_cons, Option.map_none, hu]
    exact ih

theorem foldlM_count (n : Nat) (vs : List Value) :
    vs.foldlM (fun a v => add v a) (count n) = .ok (count (n + vs.length)) := by
  induction vs generalizing n with
  | nil => rfl
  | cons v vs ih =>
    have := ih (n + 1)
    rw [Nat.add_assoc, Nat.add_comm 1] at this
    exact this

theorem foldlM_least (m : Option Value) (vs : List Value) :
    vs.foldlM (fun a v => add v a) (least m) =
      .ok (least (vs.foldl (Aggregate.further .lt) m)) := by
  induction vs generalizing m with
  | nil => rfl
  | cons v vs ih => exact ih _

theorem foldlM_greatest (m : Option Value) (vs : List Value) :
    vs.foldlM (fun a v => add v a) (greatest m) =
      .ok (greatest (vs.foldl (Aggregate.further .gt) m)) := by
  induction vs generalizing m with
  | nil => rfl
  | cons v vs ih => exact ih _

/-- A running sum that stayed in range ends as the exact sum, and that is in range. -/
theorem foldlM_wholeSum {sum : Option Int} {vs : List Value} {a : Accumulator}
    (h : vs.foldlM (fun a v => add v a) (wholeSum sum) = .ok a) :
    ∃ xs, vs.mapM Aggregate.wholeOf = .ok xs ∧
      (xs = [] ∧ a = wholeSum sum ∨ xs ≠ [] ∧ a = wholeSum (some (sum.getD 0 + xs.sum)) ∧
        Int64.minValue.toInt ≤ sum.getD 0 + xs.sum ∧
        sum.getD 0 + xs.sum ≤ Int64.maxValue.toInt) := by
  induction vs generalizing sum with
  | nil =>
    cases h
    exact ⟨[], rfl, .inl ⟨rfl, rfl⟩⟩
  | cons v vs ih =>
    rw [List.foldlM_cons] at h
    obtain ⟨b, hb, h⟩ := bind_ok h
    rw [add] at hb
    rcases hv : v.toInt? with _ | x
    · rw [hv] at hb
      cases hb
    rw [hv] at hb
    obtain ⟨next, hnext, rfl⟩ := map_ok hb
    simp only [addWhole] at hnext
    split at hnext
    swap
    · cases hnext
    rename_i hrange
    obtain rfl : sum.getD 0 + x = next := Except.ok.inj hnext
    obtain ⟨xs, hxs, hcases⟩ := ih h
    have hwhole : Aggregate.wholeOf v = .ok x := by rw [Aggregate.wholeOf, hv]
    refine ⟨x :: xs, ?_, .inr ⟨by simp, ?_⟩⟩
    · rw [List.mapM_cons, hwhole, hxs]
      rfl
    rcases hcases with ⟨rfl, rfl⟩ | ⟨_, rfl, hlo, hhi⟩
    · simp only [List.sum_cons, List.sum_nil, Int.add_zero, true_and]
      exact hrange
    · simp only [Option.getD_some] at hlo hhi ⊢
      rw [List.sum_cons, ← Int.add_assoc]
      exact ⟨rfl, hlo, hhi⟩

end Accumulator

/-- An aggregate that does not add floats. -/
def AggregateSlot.Exact (s : AggregateSlot) : Prop :=
  s.func ≠ .avg ∧ (s.func = .sum → s.result.isFloat = false)

/-- What an accumulator of exact sums comes to is the sum. -/
theorem wholeSumOf_of_foldlM {vs : List Value} {a : Accumulator}
    (h : vs.foldlM (fun a v => Accumulator.add v a) (.wholeSum none) = .ok a) :
    Aggregate.wholeSumOf vs = .ok a.result := by
  obtain ⟨xs, hxs, hcases⟩ := Accumulator.foldlM_wholeSum h
  rw [Aggregate.wholeSumOf, hxs]
  rcases hcases with ⟨rfl, rfl⟩ | ⟨hne, rfl, hlo, hhi⟩
  · rfl
  · simp only [Option.getD_none, Int.zero_add] at hlo hhi ⊢
    show (if xs = [] then _ else _) = _
    rw [if_neg hne, if_pos ⟨hlo, hhi⟩]
    rfl

/-- Without a column only a count takes anything in. -/
theorem valueOver_of_takeIn_none {s : AggregateSlot} (hs : s.Exact) {rows : List Row}
    {a : Accumulator}
    (h : (Accumulator.start s.func s.result).takeIn none rows = .ok a) :
    Aggregate.valueOver s.func s.result none rows = .ok a.result := by
  rcases s with ⟨func, result, argument⟩
  obtain ⟨havg, hsum⟩ := hs
  cases func with
  | count =>
    have h : (Accumulator.count 0).takeIn none rows = .ok a := h
    rw [Accumulator.takeIn_none_count, Nat.zero_add] at h
    cases h
    rfl
  | sum =>
    have h : (if result.isFloat then Accumulator.realSum none else .wholeSum none).takeIn none rows =
      .ok a := h
    rw [hsum rfl, if_neg (by simp), Accumulator.takeIn_none (by simp)] at h
    cases h
    rfl
  | min | max =>
    simp only [Accumulator.start] at h
    rw [Accumulator.takeIn_none (by simp)] at h
    cases h
    rfl
  | avg => exact absurd rfl havg

/-- An accumulator over the rows of a group holds the aggregate of the group. -/
theorem valueOver_of_takeIn {s : AggregateSlot} (hs : s.Exact) {rows : List Row} {a : Accumulator}
    (h : (Accumulator.start s.func s.result).takeIn s.argument rows = .ok a) :
    Aggregate.valueOver s.func s.result s.argument rows = .ok a.result := by
  rcases s with ⟨func, result, argument⟩
  cases argument with
  | none => exact valueOver_of_takeIn_none hs h
  | some c =>
    obtain ⟨havg, hsum⟩ := hs
    rw [Accumulator.takeIn_some] at h
    cases func with
    | count =>
      have h : _ = Except.ok a := (Accumulator.foldlM_count 0 (Aggregate.present c rows)).symm.trans h
      rw [Nat.zero_add] at h
      cases h
      rfl
    | sum =>
      have hfloat : ¬result.isFloat = true := ne_true_of_eq_false (hsum rfl)
      have h : (Aggregate.present c rows).foldlM (fun a v => Accumulator.add v a)
        (if result.isFloat then Accumulator.realSum none else .wholeSum none) = .ok a := h
      rw [if_neg hfloat] at h
      rw [Aggregate.valueOver, if_neg hfloat]
      exact wholeSumOf_of_foldlM h
    | min =>
      have h : _ = Except.ok a := (Accumulator.foldlM_least none (Aggregate.present c rows)).symm.trans h
      cases h
      rfl
    | max =>
      have h : _ = Except.ok a :=
        (Accumulator.foldlM_greatest none (Aggregate.present c rows)).symm.trans h
      cases h
      rfl
    | avg => exact absurd rfl havg

section Sides

variable {α : Type} {cmp : α → α → Ordering} [Std.TransCmp cmp] {side : Ordering} {a b c : α}

theorem side_trans (hside : side ≠ .eq) (hab : cmp a b = side) (hbc : cmp b c = side) :
    cmp a c = side := by
  cases side with
  | lt => exact Std.TransCmp.lt_trans hab hbc
  | eq => exact absurd rfl hside
  | gt => exact Std.TransCmp.gt_trans hab hbc

theorem side_of_not (hside : side ≠ .eq) (hac : cmp a c = side) (hbc : cmp b c ≠ side) :
    cmp a b = side := by
  cases side with
  | lt =>
    refine Std.TransCmp.lt_of_lt_of_isLE hac (Std.OrientedCmp.isLE_of_isGE ?_)
    revert hbc
    cases cmp b c <;> simp
  | eq => exact absurd rfl hside
  | gt =>
    refine Std.TransCmp.gt_of_gt_of_isGE hac (Std.OrientedCmp.isGE_of_isLE ?_)
    revert hbc
    cases cmp b c <;> simp

end Sides

namespace Aggregate

section Extreme

variable {side : Ordering} {t : DataType}

/-- The extreme value is the first of those that no other value goes beyond. -/
theorem extremeOf_first (hside : side ≠ .eq) {vs : List Value} (hvs : ∀ v ∈ vs, v.Fits t) (hne : vs ≠ []) :
    ∃ before m after, vs = before ++ m :: after ∧ extremeOf side vs = some m ∧
      (∀ v ∈ before, m.natural v = side) ∧ ∀ v ∈ after, v.natural m ≠ side := by
  have place : ∀ {x y : Value}, x.Fits t → y.Fits t → x.natural y = Value.comparePlace x.place y.place :=
    fun hx hy => Value.natural_eq (Value.not_mixed_of_fits hx hy)
  induction vs using List.reverseRecOn with
  | nil => exact absurd rfl hne
  | append_singleton vs v ih =>
    have hfold : extremeOf side (vs ++ [v]) = further side (extremeOf side vs) v := by
      rw [extremeOf, List.foldl_append]
      rfl
    by_cases hnil : vs = []
    · subst hnil
      exact ⟨[], v, [], rfl, rfl, nofun, nofun⟩
    obtain ⟨before, m, after, rfl, hm, hbefore, hafter⟩ :=
      ih (fun u hu => hvs u (List.mem_append_left _ hu)) hnil
    have hv : v.Fits t := hvs v (by simp)
    have hmfit : m.Fits t := hvs m (by simp)
    rw [hm] at hfold
    by_cases hvm : v.natural m = side
    · refine ⟨before ++ m :: after, v, [], rfl, hfold.trans (if_pos hvm), fun u hu => ?_, nofun⟩
      have hu' : u.Fits t := hvs u (List.mem_append_left _ hu)
      rw [place hv hmfit] at hvm
      rw [place hv hu']
      rcases List.mem_append.mp hu with hu | hu
      · have hmu := hbefore u hu
        rw [place hmfit hu'] at hmu
        exact side_trans hside hvm hmu
      · rcases List.mem_cons.mp hu with rfl | hu
        · exact hvm
        · have hum := hafter u hu
          rw [place hu' hmfit] at hum
          exact side_of_not hside hvm hum
    · refine ⟨before, m, after ++ [v], by simp, hfold.trans (if_neg hvm), hbefore, fun u hu => ?_⟩
      rcases List.mem_append.mp hu with hu | hu
      · exact hafter u hu
      · exact List.mem_singleton.mp hu ▸ hvm

theorem extremeOf_getD (hside : side ≠ .eq) {vs : List Value} (hvs : ∀ v ∈ vs, v.Fits t) :
    (vs = [] ∧ (extremeOf side vs).getD .null = .null) ∨
      ∃ before m after, vs = before ++ m :: after ∧ (extremeOf side vs).getD .null = m ∧
        (∀ v ∈ before, m.natural v = side) ∧ ∀ v ∈ after, v.natural m ≠ side := by
  by_cases hnil : vs = []
  · exact .inl ⟨hnil, by rw [hnil]; rfl⟩
  · obtain ⟨before, m, after, hsplit, hm, hbefore, hafter⟩ := extremeOf_first hside hvs hnil
    exact .inr ⟨before, m, after, hsplit, by rw [hm, Option.getD_some], hbefore, hafter⟩

theorem extremeOf_spec (hside : side ≠ .eq) {vs : List Value} (hvs : ∀ v ∈ vs, v.Fits t)
    (hne : vs ≠ []) : ∃ m ∈ vs, extremeOf side vs = some m ∧ ∀ v ∈ vs, v.natural m ≠ side := by
  obtain ⟨before, m, after, rfl, hm, hbefore, hafter⟩ := extremeOf_first hside hvs hne
  refine ⟨m, by simp, hm, fun v hv => ?_⟩
  -- no value has the order on the same side of it in both directions
  have hturn : m.natural v = side → v.natural m ≠ side := fun hmv => by
    have hswap : v.natural m = (m.natural v).swap := Std.OrientedCmp.eq_swap
    rw [hswap, hmv]
    cases side <;> simp at hside ⊢
  rcases List.mem_append.mp hv with hv | hv
  · exact hturn (hbefore v hv)
  rcases List.mem_cons.mp hv with rfl | hv
  · exact fun hself => hturn hself hself
  · exact hafter v hv

/-- Among values of one type that is not a float no two are extreme. -/
theorem extremeOf_perm (hside : side ≠ .eq) (ht : t.isFloat = false) {vs ws : List Value}
    (h : vs.Perm ws) (hvs : ∀ v ∈ vs, v.Fits t) : extremeOf side vs = extremeOf side ws := by
  by_cases hne : vs = []
  · subst hne
    rw [h.nil_eq]
  obtain ⟨m, hm, hvm, hmin⟩ := extremeOf_spec hside hvs hne
  have hws : ∀ w ∈ ws, w.Fits t := fun w hw => hvs w (h.mem_iff.mpr hw)
  obtain ⟨n, hn, hwn, hnin⟩ := extremeOf_spec hside hws (fun hw => hne (hw ▸ h).eq_nil)
  rw [hvm, hwn]
  have hmf := hvs m hm
  have hnf := hws n hn
  have hmn := hnin m (h.mem_iff.mp hm)
  have hnm := hmin n (h.mem_iff.mpr hn)
  refine congrArg some (Value.eq_of_natural_eq ht hmf hnf ?_)
  rw [Value.natural_eq (Value.not_mixed_of_fits hmf hnf)] at hmn ⊢
  have hswap : Value.comparePlace n.place m.place = (Value.comparePlace m.place n.place).swap :=
    Std.OrientedCmp.eq_swap
  rw [Value.natural_eq (Value.not_mixed_of_fits hnf hmf), hswap] at hnm
  revert hmn hnm
  cases Value.comparePlace m.place n.place <;> cases side <;> simp_all

end Extreme

theorem present_perm {c : Nat} {rows rows' : List Row} (h : rows.Perm rows') :
    (present c rows).Perm (present c rows') :=
  (h.map _).filter _

theorem wholeSumOf_perm {vs ws : List Value} {v : Value} (h : vs.Perm ws)
    (hv : wholeSumOf vs = .ok v) : wholeSumOf ws = .ok v := by
  obtain ⟨xs, hxs, hv⟩ := bind_ok hv
  obtain ⟨ys, hys, hperm⟩ := mapM_perm_ok h hxs
  have hnil : xs = [] ↔ ys = [] := ⟨fun hx => (hx ▸ hperm).nil_eq.symm, fun hy => (hy ▸ hperm).eq_nil⟩
  have hw : wholeSumOf ws = if ys = [] then .ok .null
    else if Int64.minValue.toInt ≤ ys.sum ∧ ys.sum ≤ Int64.maxValue.toInt then
      .ok (.int64 (Int64.ofInt ys.sum)) else .error .overflow := by
    rw [wholeSumOf, hys]
    rfl
  rw [hw, ← hperm.sum_eq, ← if_congr hnil rfl rfl]
  exact hv

end Aggregate

/-- An aggregate whose value does not depend on the order of rows. -/
structure AggregateSlot.Steady (columns : List Field) (s : AggregateSlot) : Prop where
  exact : s.Exact
  argument : ∀ c, s.argument = some c → s.func ≠ .count →
    ∃ f, columns[c]? = some f ∧ f.type.isFloat = false

theorem present_fits {columns : List Field} {rows : List Row} {c : Nat} {f : Field}
    (hf : columns[c]? = some f) (hr : ∀ r ∈ rows, r.Typed columns) :
    ∀ v ∈ Aggregate.present c rows, v.Fits f.type := by
  intro v hv
  obtain ⟨r, hmem, rfl⟩ := List.mem_map.mp (List.mem_of_mem_filter hv)
  rw [Grouping.valueAt]
  rcases hval : r.values[c]? with _ | w
  · exact .inl rfl
  · exact (hr r hmem).value_fits hf hval

theorem valueOver_perm {columns : List Field} {s : AggregateSlot} (hs : s.Steady columns)
    {rows rows' : List Row} (h : rows.Perm rows') (hr : ∀ r ∈ rows, r.Typed columns) {v : Value}
    (hv : Aggregate.valueOver s.func s.result s.argument rows = .ok v) :
    Aggregate.valueOver s.func s.result s.argument rows' = .ok v := by
  rcases s with ⟨func, result, argument⟩
  obtain ⟨⟨havg, hsum⟩, harg⟩ := hs
  cases argument with
  | none =>
    cases func with
    | count =>
      rw [← hv]
      simp only [Aggregate.valueOver, h.length_eq]
    | sum | min | max | avg => exact hv
  | some c =>
    have hp := Aggregate.present_perm (c := c) h
    cases func with
    | count =>
      rw [← hv]
      simp only [Aggregate.valueOver, hp.length_eq]
    | sum =>
      have hfloat : result.isFloat = false := hsum rfl
      simp only [Aggregate.valueOver, hfloat, Bool.false_eq_true, if_false] at hv ⊢
      exact Aggregate.wholeSumOf_perm hp hv
    | min =>
      obtain ⟨f, hf, ht⟩ := harg c rfl (by simp)
      have hext : Aggregate.extremeOf .lt (Aggregate.present c rows) =
          Aggregate.extremeOf .lt (Aggregate.present c rows') :=
        Aggregate.extremeOf_perm (by simp) ht hp (present_fits hf hr)
      rw [← hv]
      simp only [Aggregate.valueOver, hext]
    | max =>
      obtain ⟨f, hf, ht⟩ := harg c rfl (by simp)
      have hext : Aggregate.extremeOf .gt (Aggregate.present c rows) =
          Aggregate.extremeOf .gt (Aggregate.present c rows') :=
        Aggregate.extremeOf_perm (by simp) ht hp (present_fits hf hr)
      rw [← hv]
      simp only [Aggregate.valueOver, hext]
    | avg => exact absurd rfl havg

end QueryCluster
