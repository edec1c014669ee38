import Mathlib.Data.List.Basic
import QueryCluster.Codec.Batch

/-!
# Rows from columns

A split taken apart into columns comes back as its rows, each cut and filled up to the width of the
schema; the rows of a well-formed split fit already. With neither columns nor keys nothing tells how many
rows there were, and none comes back.
-/
namespace QueryCluster

/-- Something that tells the number of rows. -/
def Schema.Counts (s : Schema) : Prop := s.columns ≠ [] ∨ s.keys ≠ []

instance (s : Schema) : Decidable s.Counts := inferInstanceAs (Decidable (_ ∨ _))

def Row.squared (r : Row) (s : Schema) : Row where
  values := (List.range s.columns.length).map fun c => r.values[c]?.getD .null
  keys := (List.range s.keys.length).map fun k => r.keys[k]?.getD .null
  flags := (List.range s.keys.length).map fun k => r.flags[k]?.getD false

theorem range_getD {α : Type} (as : List α) (d : α) :
    (List.range as.length).map (fun i => as[i]?.getD d) = as := by
  apply List.ext_getElem
  · simp
  · intro i h₁ h₂
    simp [h₂]

theorem Row.squared_of_fits {r : Row} {s : Schema} (h : r.Fits s) : r.squared s = r := by
  obtain ⟨hvalues, hkeys, hflags⟩ := h
  rw [squared, ← hvalues, range_getD, ← hkeys, range_getD, hkeys, ← hflags, range_getD]

namespace Split

/-- A split with as many columns and keys as a schema names. -/
def Shaped (schema : Schema) (s : Split) : Prop :=
  s.schema.columns.length = schema.columns.length ∧ s.schema.keys.length = schema.keys.length

instance (schema : Schema) (s : Split) : Decidable (s.Shaped schema) :=
  inferInstanceAs (Decidable (_ ∧ _))

/-- What arrives of a split under a schema. -/
def delivered (s : Split) (schema : Schema) : Split :=
  { schema, rows := if schema.Counts then s.rows.map (·.squared schema) else [] }

theorem shaped_delivered (s : Split) (schema : Schema) : (s.delivered schema).Shaped schema := ⟨rfl, rfl⟩

theorem rowCount_delivered (s : Split) (schema : Schema) :
    (s.delivered schema).rowCount = if schema.Counts then s.rowCount else 0 := by
  by_cases h : schema.Counts <;> simp [delivered, h, rowCount]

theorem append_eq_ok {s t all : Split} :
    all.append s = .ok t ↔ s.Shaped all.schema ∧ t = { all with rows := all.rows ++ s.rows } := by
  by_cases h : s.Shaped all.schema
  · have hfit : ¬ (s.schema.columns.length ≠ all.schema.columns.length ∨
        s.schema.keys.length ≠ all.schema.keys.length) := by simp [h.1, h.2]
    rw [append, if_neg hfit, Except.ok.injEq, eq_comm]
    exact (and_iff_right h).symm
  · have hmisfit : s.schema.columns.length ≠ all.schema.columns.length ∨
        s.schema.keys.length ≠ all.schema.keys.length := not_and_or.mp h
    simp [append, hmisfit, h]

theorem append_of_shaped {s all : Split} (h : s.Shaped all.schema) :
    all.append s = .ok { all with rows := all.rows ++ s.rows } := append_eq_ok.mpr ⟨h, rfl⟩

theorem across_range {α : Type} {n r : Nat} {column : Nat → List α} {cell : Nat → α}
    (h : ∀ c < n, (column c)[r]? = some (cell c)) :
    across ((List.range n).map column) r = (List.range n).map cell := by
  rw [across, List.filterMap_map, ← List.filterMap_eq_map]
  apply List.filterMap_congr
  intro c hc
  exact h c (List.mem_range.mp hc)

variable {s : Split}

theorem length_column (c : Nat) : (s.column c).length = s.rowCount := by simp [column, rowCount]

theorem length_keyColumn (k : Nat) : (s.keyColumn k).length = s.rowCount := by
  simp [keyColumn, rowCount]

theorem length_flagColumn (k : Nat) : (s.flagColumn k).length = s.rowCount := by
  simp [flagColumn, rowCount]

theorem across_columns {r : Nat} (hr : r < s.rows.length) :
    across s.columns r = (s.rows[r].squared s.schema).values :=
  across_range fun c _ => by simp [column, hr]

theorem across_keyColumns {r : Nat} (hr : r < s.rows.length) :
    across s.keyColumns r = (s.rows[r].squared s.schema).keys :=
  across_range fun k _ => by simp [keyColumn, hr]

theorem across_flagColumns {r : Nat} (hr : r < s.rows.length) :
    across s.flagColumns r = (s.rows[r].squared s.schema).flags :=
  across_range fun k _ => by simp [flagColumn, hr]

theorem head_columns (h : s.schema.Counts) :
    ((s.columns.head?.or s.keyColumns.head?).map List.length).getD 0 = s.rowCount := by
  by_cases hc : s.schema.columns = []
  · have hk : 0 < s.schema.keys.length := List.length_pos_iff.mpr (h.resolve_left (absurd hc))
    obtain ⟨k, hk⟩ := Nat.exists_eq_succ_of_ne_zero (Nat.ne_of_gt hk)
    simp [columns, keyColumns, hc, hk, List.range_succ_eq_map, length_keyColumn]
  · obtain ⟨c, hc⟩ := Nat.exists_eq_succ_of_ne_zero (Nat.ne_of_gt (List.length_pos_iff.mpr hc))
    simp [columns, hc, List.range_succ_eq_map, length_column]

/-- Rows survive being taken apart into columns; directions do not travel with them. -/
theorem ofColumns_columns (s : Split) :
    ofColumns s.schema s.columns s.keyColumns s.flagColumns = .ok (s.delivered s.schema) := by
  have hcols : s.columns.length = s.schema.columns.length := by simp [columns]
  have hkeys : s.keyColumns.length = s.schema.keys.length := by simp [keyColumns]
  have hflags : s.flagColumns.length = s.schema.keys.length := by simp [flagColumns]
  simp only [ofColumns, hcols, hkeys, hflags, ne_eq, not_true, or_self, if_false, delivered]
  by_cases hs : s.schema.Counts
  · have heven : ((s.columns ++ s.keyColumns).any (·.length ≠ s.rowCount) ||
        s.flagColumns.any (·.length ≠ s.rowCount)) = false := by
      simp [columns, keyColumns, flagColumns, length_column, length_keyColumn, length_flagColumn]
    have hrows : (List.range s.rowCount).map (fun r =>
        (⟨across s.columns r, across s.keyColumns r, across s.flagColumns r⟩ : Row)) =
          s.rows.map (·.squared s.schema) := by
      apply List.ext_getElem
      · simp [rowCount]
      · intro r hr _
        have hr : r < s.rows.length := by simpa [rowCount] using hr
        simp [across_columns hr, across_keyColumns hr, across_flagColumns hr]
    rw [head_columns hs, if_neg (by simpa using heven), hrows, if_pos hs]
  · obtain ⟨hcolumns, hnokeys⟩ := not_or.mp hs
    have hempty : s.columns = [] ∧ s.keyColumns = [] ∧ s.flagColumns = [] := by
      simp [columns, keyColumns, flagColumns, not_not.mp hcolumns, not_not.mp hnokeys]
    simp [hempty, hs]

/-- The columns of a split depend on the number of fields only. -/
theorem toSplit_ofSplit {schema : Schema} (h : s.Shaped schema) :
    (Batch.ofSplit s).toSplit schema = .ok (s.delivered schema) := by
  have hsame : Batch.ofSplit s = Batch.ofSplit { s with schema } := by
    simp only [Batch.ofSplit, columns, keyColumns, flagColumns, h.1, h.2]
    rfl
  rw [hsame]
  exact ofColumns_columns { s with schema }

end Split
end QueryCluster
