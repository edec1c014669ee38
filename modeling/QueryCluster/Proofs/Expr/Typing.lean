import QueryCluster.Operator.Selection
import QueryCluster.Plan.Typing
import QueryCluster.Proofs.Outcome
import QueryCluster.Proofs.Value.Typing

/-!
# Types are kept

Over a row that fits its columns an expression of some type has a value of that type, null or none, and it
names no column that is not there. Names are looked up among the columns only, so the keys of a schema make
no difference.
-/
namespace QueryCluster

theorem Schema.typeOf_ok {s : Schema} {name : String} {t : DataType}
    (h : s.typeOf name = .ok t) :
    ∃ i f, s.indexOf? name = some i ∧ s.columns[i]? = some f ∧ f.type = t := by
  rw [Schema.typeOf] at h
  rcases hf : s.field? name with _ | f
  · rw [hf] at h
    cases h
  rw [hf] at h
  obtain ⟨i, hi, hf⟩ := Option.bind_eq_some_iff.mp hf
  exact ⟨i, f, hi, hf, Except.ok.inj h⟩

/-- A fault that blames the values of operands. -/
inductive ExprFault.OfOperands : ExprFault → Prop where
  | incomparable {l r : Value} (h : l.comparable r = false) : OfOperands (.incomparable l r)
  | notBoolean {v : Value} (h : ¬ v.Fits .boolean) : OfOperands (.notBoolean v)

namespace Expr

variable {s : Schema}

theorem typeOf_withoutKeys (e : Expr) : e.typeOf s.withoutKeys = e.typeOf s := by
  induction e with
  | column name => rfl
  | literal v => rfl
  | compare l op r hl hr => rw [typeOf, typeOf, hl, hr]
  | and l r hl hr => rw [typeOf, typeOf, hl, hr]
  | or l r hl hr => rw [typeOf, typeOf, hl, hr]
  | not e he => rw [typeOf, typeOf, he]
  | isNull e he => rw [typeOf, typeOf, he]

theorem fits_ofTruth (b : Option Bool) : (ofTruth b).Fits .boolean := by
  cases b with
  | none => exact .inl rfl
  | some b => exact .inr rfl

theorem fits_compareValues {op : Comparison} {l r v : Value} (h : compareValues op l r = .ok v) :
    v.Fits .boolean := by
  rw [compareValues] at h
  split at h
  · cases h
    exact .inl rfl
  split at h
  · cases h
    exact .inr rfl
  · cases h

theorem fits_connect {op : Option Bool → Option Bool → Option Bool} {l r v : Value}
    (h : connect op l r = .ok v) : v.Fits .boolean := by
  obtain ⟨x, _, h⟩ := bind_ok h
  obtain ⟨y, _, h⟩ := bind_ok h
  cases h
  exact fits_ofTruth _

theorem fits_lift2 {f : Value → Value → Except ExprFault Value} {t : DataType}
    (hf : ∀ x y v, f x y = .ok v → v.Fits t) {l r : Option Value} {v : Value}
    (h : lift2 f l r = .ok (some v)) : v.Fits t := by
  cases l with
  | none => cases h
  | some x =>
    cases r with
    | none => cases h
    | some y =>
      obtain ⟨w, hw, h⟩ := map_ok h
      cases h
      exact hf x y _ hw

theorem boolean_of_typeOf {e : Expr} {t : DataType} (h : e.typeOf s = .ok t) :
    (∃ name, e = .column name) ∨ (∃ v, e = .literal v) ∨ t = .boolean := by
  cases e with
  | column name => exact .inl ⟨name, rfl⟩
  | literal v => exact .inr (.inl ⟨v, rfl⟩)
  | compare l op r =>
    obtain ⟨_, _, h⟩ := bind_ok h
    obtain ⟨_, _, h⟩ := bind_ok h
    exact .inr (.inr (Except.ok.inj h).symm)
  | and l r =>
    obtain ⟨_, _, h⟩ := bind_ok h
    obtain ⟨_, _, h⟩ := bind_ok h
    exact .inr (.inr (Except.ok.inj h).symm)
  | or l r =>
    obtain ⟨_, _, h⟩ := bind_ok h
    obtain ⟨_, _, h⟩ := bind_ok h
    exact .inr (.inr (Except.ok.inj h).symm)
  | not e =>
    obtain ⟨_, _, h⟩ := bind_ok h
    exact .inr (.inr (Except.ok.inj h).symm)
  | isNull e =>
    obtain ⟨_, _, h⟩ := bind_ok h
    exact .inr (.inr (Except.ok.inj h).symm)

/-- What an expression gives over a typed row fits the type of the expression. -/
theorem eval_fits {e : Expr} {t : DataType} {r : Row} {v : Value} (ht : e.typeOf s = .ok t)
    (hr : r.Typed s.columns) (h : e.eval s r.values = .ok (some v)) : v.Fits t := by
  cases e with
  | column name =>
    obtain ⟨i, f, hi, hf, rfl⟩ := Schema.typeOf_ok ht
    rw [eval, hi] at h
    exact hr.value_fits hf (Except.ok.inj h)
  | literal w =>
    obtain rfl : w = v := Option.some.inj (Except.ok.inj h)
    obtain rfl : w.dataType?.getD .utf8 = t := Except.ok.inj ht
    cases w <;> first | exact .inl rfl | exact .inr rfl
  | compare l op r =>
    obtain rfl : t = .boolean := by simpa using boolean_of_typeOf ht
    obtain ⟨x, _, h⟩ := bind_ok h
    obtain ⟨y, _, h⟩ := bind_ok h
    exact fits_lift2 (fun _ _ _ => fits_compareValues) h
  | and l r =>
    obtain rfl : t = .boolean := by simpa using boolean_of_typeOf ht
    obtain ⟨x, _, h⟩ := bind_ok h
    obtain ⟨y, _, h⟩ := bind_ok h
    exact fits_lift2 (fun _ _ _ => fits_connect) h
  | or l r =>
    obtain rfl : t = .boolean := by simpa using boolean_of_typeOf ht
    obtain ⟨x, _, h⟩ := bind_ok h
    obtain ⟨y, _, h⟩ := bind_ok h
    exact fits_lift2 (fun _ _ _ => fits_connect) h
  | not e =>
    obtain rfl : t = .boolean := by simpa using boolean_of_typeOf ht
    obtain ⟨x, _, h⟩ := bind_ok h
    cases x with
    | none => cases h
    | some x =>
      obtain ⟨w, hw, h⟩ := map_ok h
      cases h
      obtain ⟨b, _, hw⟩ := bind_ok hw
      cases hw
      exact fits_ofTruth _
  | isNull e =>
    obtain rfl : t = .boolean := by simpa using boolean_of_typeOf ht
    obtain ⟨x, _, h⟩ := bind_ok h
    cases x with
    | none => cases h
    | some x =>
      cases h
      exact .inr rfl

theorem failsWith_truth (v : Value) : FailsWith ExprFault.OfOperands (truth v) := by
  intro f h
  cases v with
  | bool | null => cases h
  | _ =>
    cases h
    exact .notBoolean (by simp [Value.Fits, Value.dataType?])

theorem failsWith_compareValues (op : Comparison) (l r : Value) :
    FailsWith ExprFault.OfOperands (compareValues op l r) := by
  rw [compareValues]
  split
  · exact failsWith_ok _
  split
  · exact failsWith_ok _
  · next hne =>
    intro f h
    cases h
    exact .incomparable (by simpa using hne)

theorem failsWith_connect (op : Option Bool → Option Bool → Option Bool) (l r : Value) :
    FailsWith ExprFault.OfOperands (connect op l r) :=
  (failsWith_truth l).bind fun _ _ => (failsWith_truth r).bind fun _ _ => failsWith_ok _

theorem failsWith_lift2 {f : Value → Value → Except ExprFault Value}
    (hf : ∀ x y, FailsWith ExprFault.OfOperands (f x y)) (l r : Option Value) :
    FailsWith ExprFault.OfOperands (lift2 f l r) := by
  cases l with
  | none => exact failsWith_ok _
  | some x =>
    cases r with
    | none => exact failsWith_ok _
    | some y => exact (hf x y).map some

theorem operands_typed {l r : Expr} {t : DataType} (h : (do
      discard (l.typeOf s)
      discard (r.typeOf s)
      return DataType.boolean) = Except.ok t) :
    (∃ a, l.typeOf s = .ok a) ∧ ∃ b, r.typeOf s = .ok b := by
  obtain ⟨_, hl, h⟩ := bind_ok h
  obtain ⟨_, hr, _⟩ := bind_ok h
  obtain ⟨a, ha, _⟩ := map_ok hl
  obtain ⟨b, hb, _⟩ := map_ok hr
  exact ⟨⟨a, ha⟩, b, hb⟩

theorem operand_typed {e : Expr} {t : DataType} (h : (do
      discard (e.typeOf s)
      return DataType.boolean) = Except.ok t) : ∃ a, e.typeOf s = .ok a := by
  obtain ⟨_, he, _⟩ := bind_ok h
  obtain ⟨a, ha, _⟩ := map_ok he
  exact ⟨a, ha⟩

/-- Whatever a row holds, an expression that has a type finds its columns, and fails at operands. -/
theorem failsWith_eval {e : Expr} {t : DataType} (ht : e.typeOf s = .ok t) (row : List Value) :
    FailsWith ExprFault.OfOperands (e.eval s row) := by
  induction e generalizing t with
  | column name =>
    obtain ⟨i, f, hi, _⟩ := Schema.typeOf_ok ht
    rw [eval, hi]
    exact failsWith_ok _
  | literal v => exact failsWith_ok _
  | compare l op r hl hr =>
    obtain ⟨⟨_, hlt⟩, _, hrt⟩ := operands_typed ht
    exact (hl hlt).bind fun _ _ => (hr hrt).bind fun _ _ =>
      failsWith_lift2 (failsWith_compareValues op) _ _
  | and l r hl hr =>
    obtain ⟨⟨_, hlt⟩, _, hrt⟩ := operands_typed ht
    exact (hl hlt).bind fun _ _ => (hr hrt).bind fun _ _ =>
      failsWith_lift2 (failsWith_connect both) _ _
  | or l r hl hr =>
    obtain ⟨⟨_, hlt⟩, _, hrt⟩ := operands_typed ht
    exact (hl hlt).bind fun _ _ => (hr hrt).bind fun _ _ =>
      failsWith_lift2 (failsWith_connect either) _ _
  | not e he =>
    obtain ⟨_, het⟩ := operand_typed ht
    refine (he het).bind fun v _ => ?_
    cases v with
    | none => exact failsWith_ok _
    | some v => exact ((failsWith_truth v).bind fun _ _ => failsWith_ok _).map some
  | isNull e he =>
    obtain ⟨_, het⟩ := operand_typed ht
    exact (he het).bind fun _ _ => failsWith_ok _

theorem failsWith_keeps {e : Expr} {t : DataType} (ht : e.typeOf s = .ok t) (row : List Value) :
    FailsWith ExprFault.OfOperands (e.keeps s row) := by
  refine (failsWith_eval ht row).bind fun v _ => ?_
  cases v with
  | none => exact failsWith_ok _
  | some v => exact (failsWith_truth v).bind fun _ _ => failsWith_ok _

end Expr

/-- Projected rows fit the columns of the projection. -/
theorem projectRow_typed {s : Schema} {exprs : List NamedExpr} {columns : List Field} {r r' : Row}
    (hcolumns : List.Forall₂ (fun (e : NamedExpr) (f : Field) => e.expr.typeOf s = .ok f.type) exprs
      columns) (hr : r.Typed s.columns) (h : projectRow s exprs r = .ok r') : r'.Typed columns := by
  obtain ⟨values, hvalues, h⟩ := bind_ok h
  cases h
  refine ⟨?_, rfl, rfl⟩
  have hall := mapM_ok hvalues
  clear hvalues h
  induction hcolumns generalizing values with
  | nil =>
    cases hall
    exact .nil
  | cons hf _ ih =>
    obtain _ | ⟨hv, hrest⟩ := hall
    refine .cons ?_ (ih _ hrest)
    rename_i v _
    cases v with
    | none => exact .inl rfl
    | some v => exact Expr.eval_fits hf hr (mapError_ok hv)

end QueryCluster
