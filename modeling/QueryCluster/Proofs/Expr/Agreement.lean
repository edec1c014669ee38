import QueryCluster.Proofs.Expr.Grammar
import QueryCluster.Proofs.Expr.Typing

/-!
# Expressions that cannot fail

The type of an expression says that its columns are there, not that its operands go together. If
they do, the expression has a value over every row of the schema; if they do not, a row without
nulls shows it, for no operand goes without evaluation.
-/
namespace QueryCluster

/-- Values of these types can be compared; null, which has no type, with any value. -/
def DataType.meets : Option DataType → Option DataType → Bool
  | some a, some b => a == b || (a.isNumeric && b.isNumeric)
  | _, _ => true

namespace Expr

open DataType (meets)

variable {s : Schema} {e l r : Expr} {t : DataType} {row : List Value}

/-- The type of the values that are not null. -/
def kind? (s : Schema) : Expr → Option DataType
  | column name => (s.field? name).map (·.type)
  | literal v => v.dataType?
  | _ => some .boolean

/-- The operands of each comparison can be compared, and those of each connective are truth
values. -/
def agrees (s : Schema) : Expr → Bool
  | column _ | literal _ => true
  | compare l _ r => l.agrees s && r.agrees s && meets (l.kind? s) (r.kind? s)
  | and l r | or l r =>
    l.agrees s && r.agrees s && meets (l.kind? s) (some .boolean) &&
      meets (r.kind? s) (some .boolean)
  | not e => e.agrees s && meets (e.kind? s) (some .boolean)
  | isNull e => e.agrees s

/-- A row of the schema without nulls. -/
def Full (s : Schema) (row : List Value) : Prop :=
  List.Forall₂ (fun (f : Field) v => v.dataType? = some f.type) s.columns row

theorem Full.fits (h : Full s row) :
    List.Forall₂ (fun (f : Field) v => Value.Fits v f.type) s.columns row :=
  h.imp fun _ _ hv => .inr hv

end Expr

end QueryCluster
