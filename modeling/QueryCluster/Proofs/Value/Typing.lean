import Mathlib.Data.List.Forall2
import QueryCluster.Expr.Eval
import QueryCluster.Proofs.Operator.Feeds
import QueryCluster.Proofs.Value.Order

/-!
# Values of one type

Values of one type that is not a float are told apart by their key bytes and by the natural order,
as long as their texts can be counted in a 64-bit word. A value that came out of a frame can.
-/
namespace QueryCluster

open Codec (lengthLimit)

namespace Value

/-- The length of a value fits a length field. -/
def Short (v : Value) : Prop := v.encode.length < lengthLimit

/-- Two values of one type, neither of them null. -/
theorem Fits.cases {v w : Value} {t : DataType} (hv : v.Fits t) (hw : w.Fits t) :
    v = null ∨ w = null ∨ (v.dataType? = some t ∧ w.dataType? = some t) := by
  rcases hv with hv | hv
  · exact .inl hv
  rcases hw with hw | hw
  · exact .inr (.inl hw)
  · exact .inr (.inr ⟨hv, hw⟩)

theorem Short.measured {v : Value} (h : v.Short) : v.Measured := by
  cases v with
  | text s | bytes bs =>
    simp only [Short, encode, Codec.encodeText, List.length_append, Codec.length_encodeBlob] at h
    simp only [Measured]
    omega
  | _ => trivial

/-- Values of one type are told apart by their widest forms. -/
theorem eq_of_sameKey {v w : Value} {t : DataType} (ht : t.isFloat = false) (hv : v.Fits t)
    (hw : w.Fits t) (h : SameKey v w) : v = w := by
  rcases Fits.cases hv hw with rfl | rfl | ⟨hv, hw⟩
  · cases w <;> first | rfl | cases h
  · cases v <;> first | rfl | cases h
  cases v with
  | null => cases hv
  | int32 i =>
    cases hv
    cases w <;> cases hw
    rename_i j
    have hij : i.toInt64.toInt = j.toInt64.toInt := congrArg Int64.toInt (int64.inj h)
    rw [Int32.toInt_toInt64, Int32.toInt_toInt64] at hij
    exact congrArg int32 (Int32.toInt_inj.mp hij)
  | float32 | float64 =>
    cases hv
    cases ht
  | bool | int64 | text | bytes =>
    cases hv
    cases w <;> cases hw
    exact h

theorem not_mixed_of_fits {v w : Value} {t : DataType} (hv : v.Fits t) (hw : w.Fits t) :
    ¬ Mixed v w := by
  rcases Fits.cases hv hw with rfl | rfl | ⟨hv, hw⟩
  · simp [Mixed, isWhole, isReal, toInt?]
  · simp [Mixed, isWhole, isReal, toInt?]
  · cases v <;> cases hv <;> cases w <;> cases hw <;> simp [Mixed, isWhole, isReal, toInt?]

theorem not_estranged_of_fits {v w : Value} {t : DataType} (ht : t.isFloat = false) (hv : v.Fits t)
    (hw : w.Fits t) : ¬ Estranged v w := by
  rintro (hm | ⟨x, y, hreal, _⟩)
  · exact not_mixed_of_fits hv hw hm
  · cases v <;> cases hreal <;> rcases hv with hv | hv <;> cases hv <;> cases ht

/-- The natural order tells values of one type apart. -/
theorem eq_of_natural_eq {v w : Value} {t : DataType} (ht : t.isFloat = false) (hv : v.Fits t)
    (hw : w.Fits t) (h : v.natural w = .eq) : v = w :=
  eq_of_sameKey ht hv hw ((sameKey_or_estranged h).resolve_right (not_estranged_of_fits ht hv hw))

end Value

/-- Tuples of short values of the same types have the same key bytes only if they are equal. -/
theorem keyBytes_inj {types : List DataType} {vs ws : List Value}
    (ht : ∀ t ∈ types, t.isFloat = false) (hv : List.Forall₂ (fun t v => Value.Fits v t) types vs)
    (hw : List.Forall₂ (fun t v => Value.Fits v t) types ws) (sv : ∀ v ∈ vs, v.Short)
    (sw : ∀ w ∈ ws, w.Short) (h : keyBytes vs = keyBytes ws) : vs = ws := by
  have hsame := sameKeys_of_keyBytes (fun v hv => (sv v hv).measured) (fun w hw => (sw w hw).measured) h
  induction hv generalizing ws with
  | nil =>
    cases hw
    rfl
  | cons hfit _ ih =>
    obtain _ | ⟨hfit', hrest⟩ := hw
    obtain _ | ⟨hvw, hkeys⟩ := hsame
    rw [Value.eq_of_sameKey (ht _ List.mem_cons_self) hfit hfit' hvw,
      ih (fun t h => ht t (List.mem_cons_of_mem _ h)) hrest
        (fun v h => sv v (List.mem_cons_of_mem _ h)) (fun w h => sw w (List.mem_cons_of_mem _ h))
        (keyBytes_congr hkeys) hkeys]

/-- A row without keys whose values fit some columns. -/
structure Row.Typed (columns : List Field) (r : Row) : Prop where
  values : List.Forall₂ (fun (f : Field) v => Value.Fits v f.type) columns r.values
  keys : r.keys = []
  flags : r.flags = []

theorem Row.Typed.fits {schema : Schema} {r : Row} (h : r.Typed schema.columns) :
    r.Fits schema.withoutKeys :=
  ⟨h.values.length_eq.symm, by rw [h.keys]; rfl, by rw [h.flags]; rfl⟩

theorem Row.Typed.withoutKeys {columns : List Field} {r : Row} (h : r.Typed columns) :
    r.withoutKeys = r := by
  rcases r with ⟨values, keys, flags⟩
  obtain rfl : keys = [] := h.keys
  obtain rfl : flags = [] := h.flags
  rfl

theorem Row.Typed.settled {columns : List Field} {r : Row} (h : r.Typed columns) :
    Row.withKeys r.values [] = r := h.withoutKeys

/-- The value of a column has the type of the column. -/
theorem Row.Typed.value_fits {columns : List Field} {r : Row} (h : r.Typed columns) {i : Nat}
    {f : Field} (hf : columns[i]? = some f) {v : Value} (hv : r.values[i]? = some v) :
    v.Fits f.type := by
  obtain ⟨hi, rfl⟩ := List.getElem?_eq_some_iff.mp hf
  obtain ⟨hj, rfl⟩ := List.getElem?_eq_some_iff.mp hv
  exact h.values.get hi hj

end QueryCluster
