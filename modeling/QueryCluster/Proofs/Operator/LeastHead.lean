import QueryCluster.Proofs.Operator.StableMerge
import QueryCluster.Proofs.Split.Layout

/-!
# The first least head

A merge looks through its slots once and keeps one row at a time. What it keeps in the end is the first row
that no other row is less than, whatever slots are empty. It compares rows as they were copied out of their
splits, a sort compares them in place, and both find the same order.
-/
namespace QueryCluster

namespace Heads

variable {h : Heads} {i j : Nat} {r s : Row}

/-- Slot `i` holds a row, and no row is less than it. -/
def Least (h : Heads) (i : Nat) : Prop :=
  (h.at? i).isSome ∧ ∀ j, (h.at? j).isSome → h.less j i = false

/-- No key position of the rows sets a whole number against a float. -/
def Unmixed (h : Heads) : Prop := ∀ a b, some a ∈ h.slots → some b ∈ h.slots → a.Unmixed b

theorem at?_eq_some : h.at? i = some r ↔ h.slots[i]? = some (some r) := by
  rw [at?]
  rcases h.slots[i]? with _ | _ | s <;> simp

theorem mem_slots (hi : h.at? i = some r) : some r ∈ h.slots :=
  List.mem_of_getElem? (at?_eq_some.mp hi)

theorem less_of_rows (hi : h.at? i = some r) (hj : h.at? j = some s) :
    h.less i j = (compareKeys h.orders r s == .lt) := by
  rw [less, hi, hj]

theorem Unmixed.agrees (hu : h.Unmixed) :
    Agrees h.orders (placedKeys h.orders) (h.slots.filterMap id) := by
  intro a ha b hb
  apply compareKeys_eq
  exact hu a b (by simpa using ha) (by simpa using hb)

theorem Unmixed.less_eq (hu : h.Unmixed) (hi : h.at? i = some r) (hj : h.at? j = some s) :
    h.less i j = (placedKeys h.orders r s == .lt) := by
  rw [less_of_rows hi hj, compareKeys_eq (hu r s (mem_slots hi) (mem_slots hj))]

theorem min?_eq_some (hi : h.min? = some i) : ∃ r, h.least? = some (i, r) := by
  obtain ⟨⟨_, r⟩, hleast, rfl⟩ := Option.map_eq_some_iff.mp hi
  exact ⟨r, hleast⟩

theorem Unmixed.least_of_min? (hu : h.Unmixed) (hi : h.min? = some i) : h.Least i := by
  obtain ⟨r, hleast⟩ := min?_eq_some hi
  have hr : h.at? i = some r := at?_eq_some.mpr (least?_mem hleast)
  constructor
  · rw [hr]
    rfl
  · intro j hj
    obtain ⟨s, hs⟩ := Option.isSome_iff_exists.mp hj
    have hle := least?_isLE hu.agrees hleast s (by simpa using mem_slots hs)
    rw [hu.less_eq hs hr]
    simpa using Std.OrientedCmp.not_lt_of_isLE hle

theorem Unmixed.first_of_min? (hu : h.Unmixed) (hi : h.min? = some i) : ∀ k < i, ¬ h.Least k := by
  intro k hk hleast
  obtain ⟨r, hmin⟩ := min?_eq_some hi
  have hr : h.at? i = some r := at?_eq_some.mpr (least?_mem hmin)
  obtain ⟨s, hs⟩ := Option.isSome_iff_exists.mp hleast.1
  have hlt : placedKeys h.orders r s = .lt := by
    apply least?_first hu.agrees hmin
    have hslot := at?_eq_some.mp hs
    rw [← List.getElem?_take_of_lt hk] at hslot
    exact List.mem_of_getElem? hslot
  have hless := hleast.2 i (by rw [hr]; rfl)
  rw [hu.less_eq hr hs, hlt] at hless
  cases hless

theorem min?_eq_none : h.min? = none ↔ ∀ s ∈ h.slots, s = none := by
  constructor
  · intro hmin
    exact least?_eq_none (Option.map_eq_none_iff.mp hmin)
  · intro hempty
    by_contra hsome
    obtain ⟨i, hi⟩ := Option.ne_none_iff_exists'.mp hsome
    obtain ⟨r, hleast⟩ := min?_eq_some hi
    have hr := hempty _ (List.mem_of_getElem? (least?_mem hleast))
    cases hr

theorem Unmixed.min?_eq_some_iff (hu : h.Unmixed) :
    h.min? = some i ↔ h.Least i ∧ ∀ k < i, ¬ h.Least k := by
  constructor
  · intro hi
    exact ⟨hu.least_of_min? hi, hu.first_of_min? hi⟩
  · rintro ⟨hleast, hfirst⟩
    obtain ⟨r, hr⟩ := Option.isSome_iff_exists.mp hleast.1
    have hsome : h.min? ≠ none := fun hnone => by cases min?_eq_none.mp hnone _ (mem_slots hr)
    obtain ⟨k, hk⟩ := Option.ne_none_iff_exists'.mp hsome
    rcases Nat.lt_trichotomy k i with hlt | rfl | hlt
    · exact absurd (hu.least_of_min? hk) (hfirst k hlt)
    · exact hk
    · exact absurd hleast (hu.first_of_min? hk i hlt)

end Heads

/-! ## One order -/

/-- The values of rows do not count. -/
theorem compareKeys_values (orders : List Direction) (a b : Row) (values values' : List Value) :
    compareKeys orders { a with values } { b with values := values' } = compareKeys orders a b := by
  have hfrom : ∀ k, compareKeysFrom { a with values } { b with values := values' } k orders =
      compareKeysFrom a b k orders := by
    induction orders with
    | nil => exact fun _ => rfl
    | cons d ds ih =>
      intro k
      rw [compareKeysFrom_cons, compareKeysFrom_cons, ih]
      rfl
  exact hfrom 0

namespace Columnar

variable {c : Columnar} {r t : Nat}

theorem WellFormed.keyRow_eq (hc : c.WellFormed) (hr : r < c.rowCount) :
    c.keyRow r = some (Split.across c.keys r, Split.across c.flags r) := by
  rw [keyRow, mapM_across hr hc.keyRows, mapM_across hr hc.flagRows]
  rfl

/-- Rows are compared in place as they are once they have been copied out. -/
theorem WellFormed.compareRows_eq_compareKeys (hc : c.WellFormed) (hr : r < c.rowCount)
    (ht : t < c.rowCount) (values values' : List Value) : c.compareRows r t = compareKeys c.orders
      ⟨values, Split.across c.keys r, Split.across c.flags r⟩
      ⟨values', Split.across c.keys t, Split.across c.flags t⟩ := by
  have hcount : c.split.rows.length = c.rowCount := by simp [Columnar.split]
  have hinPlace := compareRows_eq hc.split r t
  rw [hc.arrays_split, Split.compareRows_eq hc.split (hcount ▸ hr) (hcount ▸ ht)] at hinPlace
  have hdetached := compareKeys_values c.orders
    ⟨Split.across c.columns r, Split.across c.keys r, Split.across c.flags r⟩
    ⟨Split.across c.columns t, Split.across c.keys t, Split.across c.flags t⟩ values values'
  rw [hdetached, hinPlace]
  simp [Columnar.split]

end Columnar

/-- Of the rows in the slots of a merge, the first one that no row is less than is found, and none only if
all slots are empty. Two rows of a split compare in place as what is copied out of it does, however many
directions there are, and the split is sorted by that order. -/
theorem first_least_head :
    (∀ h : Heads, (h.min? = none ↔ ∀ s ∈ h.slots, s = none) ∧
      (h.Unmixed → ∀ i, h.min? = some i ↔ h.Least i ∧ ∀ k < i, ¬ h.Least k)) ∧
    ∀ c : Columnar, c.WellFormed →
      (∀ r < c.rowCount, ∀ t < c.rowCount, ∃ keys flags keys' flags', c.keyRow r = some (keys, flags) ∧
        c.keyRow t = some (keys', flags') ∧ ∀ values values', c.compareRows r t =
          compareKeys c.orders ⟨values, keys, flags⟩ ⟨values', keys', flags'⟩) ∧
      c.sort = some c.split.sort.arrays := by
  constructor
  · intro h
    exact ⟨Heads.min?_eq_none, fun hu i => hu.min?_eq_some_iff⟩
  · intro c hc
    constructor
    · intro r hr t ht
      exact ⟨_, _, _, _, hc.keyRow_eq hr, hc.keyRow_eq ht, hc.compareRows_eq_compareKeys hr ht⟩
    · have hsort := Columnar.sort_eq hc.split
      rwa [hc.arrays_split] at hsort

/-- Whole numbers of both widths and floats, and directions for one key more than there is. -/
def queue : Columnar where
  schema := { columns := [], keys := [⟨"__key0", .int64⟩, ⟨"__key1", .float64⟩] }
  columns := []
  keys := [[.int64 2, .int32 1, .int64 1, .int32 1],
    [.null, .float64 ⟨0x3ff0000000000000⟩, .float64 ⟨0x4000000000000000⟩, .float64 ⟨0x4000000000000000⟩]]
  flags := [[true, true, true, true], [false, true, true, true]]
  orders := [.ascending, .descending, .ascending]
  rowCount := 4

/-- The rows behind empty slots; the last two are equal. -/
def queueHeads : Heads where
  slots := none :: none :: queue.split.rows.map some
  orders := queue.orders

theorem queueHeads_unmixed : queueHeads.Unmixed := by
  have hkey : ∀ r ∈ queue.split.rows, (∀ v ∈ r.key? 0, v.isReal = false) ∧
      (∀ v ∈ r.key? 1, v.isWhole = false) ∧ r.flags.length = 2 := by decide
  intro a b ha hb k x y hx hy hmixed
  obtain ⟨ha₀, ha₁, ha₂⟩ := hkey a (by simpa [queueHeads] using ha)
  obtain ⟨hb₀, hb₁, hb₂⟩ := hkey b (by simpa [queueHeads] using hb)
  match k with
  | 0 => simp [Value.Mixed, ha₀ x hx, hb₀ y hy] at hmixed
  | 1 => simp [Value.Mixed, ha₁ x hx, hb₁ y hy] at hmixed
  | k + 2 =>
    rw [Row.key?, List.getElem?_eq_none (by omega)] at hx
    cases hx

theorem first_least_head_queue : queueHeads.Unmixed ∧ queue.WellFormed ∧
    (queueHeads.Least 4 ∧ ∀ k < 4, ¬ queueHeads.Least k) ∧
    (∃ keys flags keys' flags', queue.keyRow 0 = some (keys, flags) ∧ queue.keyRow 2 = some (keys', flags') ∧
      compareKeys queue.orders ⟨[], keys, flags⟩ ⟨[], keys', flags'⟩ = .gt) := by
  have hqueue : queue.WellFormed := by constructor <;> decide
  obtain ⟨hheads, hsplits⟩ := first_least_head
  have hmin : queueHeads.min? = some 4 := by decide +kernel
  obtain ⟨keys, flags, keys', flags', hfirst, hsecond, hcompare⟩ :=
    (hsplits queue hqueue).1 0 (by decide) 2 (by decide)
  refine ⟨queueHeads_unmixed, hqueue, ((hheads queueHeads).2 queueHeads_unmixed 4).mp hmin,
    keys, flags, keys', flags', hfirst, hsecond, ?_⟩
  rw [← hcompare]
  decide +kernel

end QueryCluster
