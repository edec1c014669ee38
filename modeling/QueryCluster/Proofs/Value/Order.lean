import QueryCluster.Proofs.Number.Rounding
import QueryCluster.Proofs.Value.Keys
import QueryCluster.Split.Basic

/-!
# Where values stand in the natural order

Every value has a place: a class, a number and a text. Places are ordered by class, then number,
then text, and this order is total and transitive. The natural order is the order of places for any
two values but a whole number against a float, which are compared as doubles. Rows that never set
the two against each other at one key position are compared as their places are.
-/
namespace QueryCluster

namespace Value

/-- A 32-bit or 64-bit integer. -/
def isWhole (v : Value) : Bool := v.toInt?.isSome

def isReal : Value → Bool
  | float32 _ | float64 _ => true
  | _ => false

/-- A whole number on one side and a float on the other. -/
def Mixed (a b : Value) : Prop := (a.isWhole ∧ b.isReal) ∨ (a.isReal ∧ b.isWhole)

abbrev Place := Nat × Int × List Nat

def place : Value → Place
  | null => (0, 0, [])
  | bool b => (1, b.toNat, [])
  | int32 i => (2, i.toInt, [])
  | int64 i => (2, i.toInt, [])
  | float32 x => (3, x.widen.rank, [])
  | float64 x => (3, x.rank, [])
  | text s => (4, 0, (Bytes.ofString s).map UInt8.toNat)
  | bytes bs => (5, 0, bs.map UInt8.toNat)

def comparePlace : Place → Place → Ordering :=
  compareLex (compareOn Prod.fst) (compareLex (compareOn fun p => p.2.1) (compareOn fun p => p.2.2))

instance : Std.TransCmp comparePlace := by
  unfold comparePlace
  infer_instance

theorem compareBytes_eq (a b : Bytes) :
    compareBytes a b = compare (a.map UInt8.toNat) (b.map UInt8.toNat) := by
  induction a generalizing b with
  | nil => cases b <;> rfl
  | cons x xs ih =>
    cases b with
    | nil => rfl
    | cons y ys =>
      rw [compareBytes, ih, List.map_cons, List.map_cons, List.compare_eq_compareLex,
        List.compareLex_cons_cons]

theorem compare_natCast (m n : Nat) : compare (m : Int) (n : Int) = compare m n := by
  simp only [compare, compareOfLessAndEq, Int.ofNat_lt, Int.ofNat_inj]

theorem natural_eq {a b : Value} (h : ¬ Mixed a b) : a.natural b = comparePlace a.place b.place := by
  revert h
  cases a <;> cases b <;>
    simp [Mixed, isWhole, isReal, natural, compareNumeric, toInt?, toDouble?, kindRank, comparePlace,
      place, compareLex, compareOn, compareText, compareBytes_eq, Double.compareRank,
      compare_natCast] <;>
    rfl

end Value

namespace Row

/-- No key position sets a whole number against a float. -/
def Unmixed (a b : Row) : Prop :=
  ∀ k x y, a.key? k = some x → b.key? k = some y → ¬ Value.Mixed x y

def place (r : Row) (k : Nat) : Option Value.Place := (r.key? k).map Value.place

end Row

instance : Ord Value.Place := ⟨Value.comparePlace⟩

instance : Std.TransOrd Value.Place := inferInstanceAs (Std.TransCmp Value.comparePlace)

/-- One key position by places; an absent key stands before every place. -/
def placedKey (d : Direction) (k : Nat) (a b : Row) : Ordering :=
  d.apply (compare (a.place k) (b.place k))

/-- The order of rows by the places of their keys from position `k` on. -/
def placedKeysFrom : Nat → List Direction → Row → Row → Ordering
  | _, [] => fun _ _ => .eq
  | k, d :: ds => compareLex (placedKey d k) (placedKeysFrom (k + 1) ds)

def placedKeys (orders : List Direction) : Row → Row → Ordering := placedKeysFrom 0 orders

instance (d : Direction) (k : Nat) : Std.TransCmp (placedKey d k) := by
  cases d with
  | ascending => exact inferInstanceAs (Std.TransCmp (compareOn fun r : Row => r.place k))
  | descending =>
    have hswap : placedKey .descending k = fun a b => compareOn (fun r : Row => r.place k) b a := by
      funext a b
      exact Std.OrientedCmp.eq_swap.symm
    rw [hswap]
    infer_instance

instance (k : Nat) (ds : List Direction) : Std.TransCmp (placedKeysFrom k ds) := by
  induction ds generalizing k with
  | nil => exact { eq_swap := rfl, isLE_trans := fun _ _ => rfl }
  | cons d ds ih =>
    have := ih (k + 1)
    exact inferInstanceAs (Std.TransCmp (compareLex (placedKey d k) (placedKeysFrom (k + 1) ds)))

instance (orders : List Direction) : Std.TransCmp (placedKeys orders) :=
  inferInstanceAs (Std.TransCmp (placedKeysFrom 0 orders))

theorem compareKey_eq {a b : Row} (h : a.Unmixed b) (d : Direction) (k : Nat) :
    compareKey d (a.key? k) (b.key? k) = placedKey d k a b := by
  unfold compareKey placedKey Row.place
  congr 1
  cases ha : a.key? k with
  | none => cases b.key? k <;> rfl
  | some x =>
    cases hb : b.key? k with
    | none => rfl
    | some y => exact Value.natural_eq (h k x y ha hb)

theorem compareKeysFrom_eq {a b : Row} (h : a.Unmixed b) (k : Nat) (ds : List Direction) :
    compareKeysFrom a b k ds = placedKeysFrom k ds a b := by
  induction ds generalizing k with
  | nil => rfl
  | cons d ds ih =>
    rw [compareKeysFrom, compareKey_eq h, ih, placedKeysFrom, compareLex]
    cases placedKey d k a b <;> rfl

/-- Unmixed rows are compared by the places of their keys. -/
theorem compareKeys_eq {a b : Row} (h : a.Unmixed b) (orders : List Direction) :
    compareKeys orders a b = placedKeys orders a b :=
  compareKeysFrom_eq h 0 orders

/-!
## How far key comparison is a preorder

Every key is equal to itself and every comparison turned round gives the opposite answer. Comparison is
transitive too, but for one thing: a float equals all whole numbers that round to it, and these do not
equal each other. Rows that set no float against two such numbers at one key position are in a total
preorder, whatever else their keys are.
-/

namespace Value

/-- Where a value stands once whole numbers are rounded to doubles. -/
def rounded (v : Value) : Place :=
  match v.toInt? with
  | some i => (3, (Double.ofInt i).rank, [])
  | none => v.place

theorem natural_whole {a b : Value} {i j : Int} (ha : a.toInt? = some i) (hb : b.toInt? = some j) :
    a.natural b = compare i j := by
  cases a <;> cases ha <;> cases b <;> cases hb <;> rfl

theorem natural_rounded {a b : Value} (h : ¬ (a.isWhole ∧ b.isWhole)) :
    a.natural b = comparePlace a.rounded b.rounded := by
  revert h
  cases a <;> cases b <;>
    simp [isWhole, natural, compareNumeric, toInt?, toDouble?, kindRank, comparePlace, rounded, place,
      compareLex, compareOn, compareText, compareBytes_eq, Double.compareRank, compare_natCast] <;>
    rfl

theorem rounded_whole {v : Value} {i : Int} (h : v.toInt? = some i) :
    v.rounded = (3, (Double.ofInt i).rank, []) := by
  rw [rounded, h]

theorem comparePlace_numbers (x y : Int) :
    comparePlace (3, x, []) (3, y, []) = compare x y := by
  simp [comparePlace, compareLex, compareOn]

/-- The order of values never goes against that of their rounded places. -/
theorem rounded_isLE {a b : Value} (h : (a.natural b).isLE) :
    (comparePlace a.rounded b.rounded).isLE := by
  by_cases hw : a.isWhole ∧ b.isWhole
  · obtain ⟨i, hi⟩ := Option.isSome_iff_exists.mp hw.1
    obtain ⟨j, hj⟩ := Option.isSome_iff_exists.mp hw.2
    rw [natural_whole hi hj, Int.isLE_compare] at h
    rw [rounded_whole hi, rounded_whole hj, comparePlace_numbers, Int.isLE_compare]
    exact Double.rank_ofInt_mono h
  · rwa [natural_rounded hw] at h

instance : Std.OrientedCmp natural where
  eq_swap {a b} := by
    by_cases hw : a.isWhole ∧ b.isWhole
    · obtain ⟨i, hi⟩ := Option.isSome_iff_exists.mp hw.1
      obtain ⟨j, hj⟩ := Option.isSome_iff_exists.mp hw.2
      rw [natural_whole hi hj, natural_whole hj hi]
      exact Std.OrientedCmp.eq_swap
    · rw [natural_rounded hw, natural_rounded fun h => hw h.symm]
      exact Std.OrientedCmp.eq_swap

/-- A float that equals two different whole numbers, as both round to its place. -/
def Blurs (x u v : Value) : Prop :=
  ∃ y i j, x.isReal ∧ x.toDouble? = some y ∧ u.toInt? = some i ∧ v.toInt? = some j ∧ i ≠ j ∧
    y.rank = (Double.ofInt i).rank ∧ y.rank = (Double.ofInt j).rank

variable {x u v : Value}

theorem Blurs.symm (h : Blurs x u v) : Blurs x v u := by
  obtain ⟨y, i, j, hx, hy, hu, hv, hne, hi, hj⟩ := h
  exact ⟨y, j, i, hx, hy, hv, hu, hne.symm, hj, hi⟩

/-- Whole numbers are blurred from two to the fifty-three on only. -/
theorem Blurs.large (h : Blurs x u v) :
    ∃ i j, u.toInt? = some i ∧ v.toInt? = some j ∧ 2 ^ 53 ≤ i.natAbs ∧ 2 ^ 53 ≤ j.natAbs := by
  obtain ⟨y, i, j, _, _, hu, hv, hne, hi, hj⟩ := h
  exact ⟨i, j, hu, hv, Double.le_natAbs_of_rank_eq hne (hi.symm.trans hj)⟩

theorem rounded_real {y : Double} (hx : x.isReal) (hy : x.toDouble? = some y) :
    x.rounded = (3, y.rank, []) := by
  cases x <;> cases hx <;> cases hy <;> rfl

theorem number_between {i j : Int} (hu : u.toInt? = some i) (hv : v.toInt? = some j)
    (hux : (comparePlace u.rounded x.rounded).isLE) (hxv : (comparePlace x.rounded v.rounded).isLE) :
    x.isWhole ∨ ∃ y, x.isReal ∧ x.toDouble? = some y := by
  rw [rounded_whole hu] at hux
  rw [rounded_whole hv] at hxv
  cases x with
  | int32 | int64 => exact .inl rfl
  | float32 x => exact .inr ⟨_, rfl, rfl⟩
  | float64 x => exact .inr ⟨_, rfl, rfl⟩
  | null | bool => cases hux
  | text | bytes => cases hxv

theorem natural_trans (h : ¬ Blurs x u v) (hux : (u.natural x).isLE) (hxv : (x.natural v).isLE) :
    (u.natural v).isLE := by
  have hux' := rounded_isLE hux
  have hxv' := rounded_isLE hxv
  by_cases hw : u.isWhole ∧ v.isWhole
  · obtain ⟨i, hi⟩ := Option.isSome_iff_exists.mp hw.1
    obtain ⟨j, hj⟩ := Option.isSome_iff_exists.mp hw.2
    rw [natural_whole hi hj, Int.isLE_compare]
    rcases number_between hi hj hux' hxv' with hx | ⟨y, hx, hy⟩
    · obtain ⟨k, hk⟩ := Option.isSome_iff_exists.mp hx
      rw [natural_whole hi hk, Int.isLE_compare] at hux
      rw [natural_whole hk hj, Int.isLE_compare] at hxv
      exact Int.le_trans hux hxv
    · rw [rounded_whole hi, rounded_real hx hy, comparePlace_numbers, Int.isLE_compare] at hux'
      rw [rounded_whole hj, rounded_real hx hy, comparePlace_numbers, Int.isLE_compare] at hxv'
      -- If the greater number came first, both would round to the place of the float.
      refine Int.not_lt.mp fun hlt => h ⟨y, i, j, hx, hy, hi, hj, by omega, ?_⟩
      have hmono := Double.rank_ofInt_mono (Int.le_of_lt hlt)
      omega
  · rw [natural_rounded hw]
    exact Std.TransCmp.isLE_trans hux' hxv'

theorem not_whole_of_real (h : x.isReal) : ¬ x.isWhole := by
  cases x <;> cases h <;> exact Bool.false_ne_true

theorem Blurs.natural_eq (h : Blurs x u v) :
    u.natural x = .eq ∧ x.natural v = .eq ∧ u.natural v ≠ .eq := by
  obtain ⟨y, i, j, hx, hy, hu, hv, hne, hi, hj⟩ := h
  have hreal := not_whole_of_real hx
  refine ⟨?_, ?_, ?_⟩
  · rw [natural_rounded fun h => hreal h.2, rounded_whole hu, rounded_real hx hy, hi]
    exact Std.ReflCmp.compare_self
  · rw [natural_rounded fun h => hreal h.1, rounded_whole hv, rounded_real hx hy, hj]
    exact Std.ReflCmp.compare_self
  · rw [natural_whole hu hv]
    exact fun h => hne (Std.LawfulEqOrd.eq_of_compare h)

/-- Two comparisons go through a value in both directions just when it does not blur their ends. -/
theorem natural_trans_iff :
    (((u.natural x).isLE → (x.natural v).isLE → (u.natural v).isLE) ∧
      ((v.natural x).isLE → (x.natural u).isLE → (v.natural u).isLE)) ↔ ¬ Blurs x u v := by
  refine ⟨fun ⟨huv, hvu⟩ h => ?_, fun h => ⟨natural_trans h, natural_trans fun hvu => h hvu.symm⟩⟩
  obtain ⟨hux, hxv, hne⟩ := h.natural_eq
  obtain ⟨hvx, hxu, _⟩ := h.symm.natural_eq
  have hle := huv (by rw [hux]; rfl) (by rw [hxv]; rfl)
  have hge := hvu (by rw [hvx]; rfl) (by rw [hxu]; rfl)
  exact hne (Std.OrientedCmp.isLE_antisymm hle hge)

end Value

theorem Direction.apply_swap (d : Direction) (o : Ordering) : (d.apply o).swap = d.apply o.swap := by
  cases d <;> rfl

instance (d : Direction) : Std.OrientedCmp (compareKey d) where
  eq_swap {a b} := by
    show d.apply _ = (d.apply _).swap
    rw [Direction.apply_swap]
    congr 1
    cases a with
    | none => cases b <;> rfl
    | some x =>
      cases b with
      | none => rfl
      | some y => exact (inferInstance : Std.OrientedCmp Value.natural).eq_swap

theorem compareKey_descending (a b : Option Value) :
    compareKey .descending a b = compareKey .ascending b a :=
  (inferInstance : Std.OrientedCmp (compareKey .ascending)).eq_swap.symm

theorem compareKey_ascending_trans {a b c : Option Value}
    (h : ∀ u x v, a = some u → b = some x → c = some v → ¬ Value.Blurs x u v)
    (hab : (compareKey .ascending a b).isLE) (hbc : (compareKey .ascending b c).isLE) :
    (compareKey .ascending a c).isLE := by
  cases a with
  | none => cases c <;> rfl
  | some u =>
    cases b with
    | none => cases hab
    | some x =>
      cases c with
      | none => cases hbc
      | some v => exact Value.natural_trans (h u x v rfl rfl rfl) hab hbc

theorem compareKey_trans (d : Direction) {a b c : Option Value}
    (h : ∀ u x v, a = some u → b = some x → c = some v → ¬ Value.Blurs x u v)
    (hab : (compareKey d a b).isLE) (hbc : (compareKey d b c).isLE) : (compareKey d a c).isLE := by
  cases d with
  | ascending => exact compareKey_ascending_trans h hab hbc
  | descending =>
    rw [compareKey_descending] at hab hbc ⊢
    exact compareKey_ascending_trans (fun v x u hv hx hu hblur => h u x v hu hx hv hblur.symm) hbc hab

theorem compareKeysFrom_cons (a b : Row) (k : Nat) (d : Direction) (ds : List Direction) :
    compareKeysFrom a b k (d :: ds) =
      (compareKey d (a.key? k) (b.key? k)).then (compareKeysFrom a b (k + 1) ds) := by
  rw [compareKeysFrom]
  cases compareKey d (a.key? k) (b.key? k) <;> rfl

theorem compareKeysFrom_swap (a b : Row) (k : Nat) (ds : List Direction) :
    compareKeysFrom a b k ds = (compareKeysFrom b a k ds).swap := by
  induction ds generalizing k with
  | nil => rfl
  | cons d ds ih =>
    rw [compareKeysFrom_cons, compareKeysFrom_cons, Ordering.swap_then, ← ih,
      ← Std.OrientedCmp.eq_swap]

/-- Rows that set no float against two whole numbers that it blurs, at any key position. -/
def Row.Sharp (rows : List Row) : Prop :=
  ∀ a ∈ rows, ∀ b ∈ rows, ∀ c ∈ rows, ∀ k x u v,
    a.key? k = some x → b.key? k = some u → c.key? k = some v → ¬ Value.Blurs x u v

section Sharp

variable {rows : List Row}

theorem Row.Sharp.transCmp_key (h : Row.Sharp rows) (d : Direction) (k : Nat) :
    Std.TransCmp fun a b : { r // r ∈ rows } => compareKey d (a.1.key? k) (b.1.key? k) where
  eq_swap := Std.OrientedCmp.eq_swap
  isLE_trans {a b c} := compareKey_trans d fun u x v hu hx hv =>
    h b.1 b.2 a.1 a.2 c.1 c.2 k x u v hx hu hv

/-- Sharp rows are in a total preorder by their keys, position by position. -/
theorem Row.Sharp.transCmp (h : Row.Sharp rows) (k : Nat) (ds : List Direction) :
    Std.TransCmp fun a b : { r // r ∈ rows } => compareKeysFrom a.1 b.1 k ds := by
  induction ds generalizing k with
  | nil => exact { eq_swap := rfl, isLE_trans := fun _ _ => rfl }
  | cons d ds ih =>
    have := h.transCmp_key d k
    have := ih (k + 1)
    simp only [compareKeysFrom_cons]
    exact inferInstanceAs (Std.TransCmp (compareLex
      (fun a b : { r // r ∈ rows } => compareKey d (a.1.key? k) (b.1.key? k))
      fun a b : { r // r ∈ rows } => compareKeysFrom a.1 b.1 (k + 1) ds))

end Sharp

/-- Rows compare equal to themselves and the other way when turned round, and comparison goes through
sharp rows. Among values it goes through just what does not blur the ends, and only whole numbers from
two to the fifty-three on are blurred. -/
theorem compareKeys_preorder (orders : List Direction) :
    (∀ a, compareKeys orders a a = .eq) ∧
      (∀ a b, compareKeys orders b a = (compareKeys orders a b).swap) ∧
      (∀ a b c, Row.Sharp [a, b, c] → (compareKeys orders a b).isLE → (compareKeys orders b c).isLE →
        (compareKeys orders a c).isLE) ∧
      (∀ x u v : Value, (((u.natural x).isLE → (x.natural v).isLE → (u.natural v).isLE) ∧
        ((v.natural x).isLE → (x.natural u).isLE → (v.natural u).isLE)) ↔ ¬ x.Blurs u v) ∧
      ∀ x u v : Value, x.Blurs u v →
        ∃ i j, u.toInt? = some i ∧ v.toInt? = some j ∧ 2 ^ 53 ≤ i.natAbs ∧ 2 ^ 53 ≤ j.natAbs := by
  have hswap : ∀ a b, compareKeys orders b a = (compareKeys orders a b).swap := fun a b =>
    compareKeysFrom_swap b a 0 orders
  refine ⟨fun a => ?_, hswap, fun a b c h hab hbc => ?_, fun x u v => Value.natural_trans_iff,
    fun x u v => Value.Blurs.large⟩
  · have := hswap a a
    revert this
    cases compareKeys orders a a <;> simp
  · exact (h.transCmp 0 orders).isLE_trans (a := ⟨a, by simp⟩) (b := ⟨b, by simp⟩) (c := ⟨c, by simp⟩)
      hab hbc

theorem Row.mem_keys_of_key? {r : Row} {k : Nat} {v : Value} (h : r.key? k = some v) : v ∈ r.keys := by
  rw [Row.key?] at h
  split at h
  · exact List.mem_of_getElem? h
  · cases h

theorem Row.sharp_of_small {rows : List Row}
    (h : ∀ r ∈ rows, ∀ v ∈ r.keys, ∀ i ∈ v.toInt?, i.natAbs < 2 ^ 53) : Row.Sharp rows := by
  intro a _ b hb c _ k x u v _ hu _ hblur
  obtain ⟨i, _, hi, _, hlarge, _⟩ := hblur.large
  exact absurd (h b hb u (Row.mem_keys_of_key? hu) i hi) (Nat.not_lt.mpr hlarge)

/-- A float between whole numbers of either width. -/
theorem compareKeys_preorder_widths :
    (compareKeys [.ascending] ⟨[], [.int32 2], [true]⟩ ⟨[], [.int64 3], [true]⟩).isLE := by
  have hsharp : Row.Sharp [⟨[], [.int32 2], [true]⟩, ⟨[], [.float64 ⟨0x4004000000000000⟩], [true]⟩,
      ⟨[], [.int64 3], [true]⟩] := Row.sharp_of_small (by decide)
  exact (compareKeys_preorder [.ascending]).2.2.1 _ _ _ hsharp (by decide +kernel) (by decide +kernel)

/-- The float at two to the fifty-three equals the whole number there and the next one. -/
theorem not_compareKeys_trans :
    ¬ ∀ a b c, (compareKeys [.ascending] a b).isLE → (compareKeys [.ascending] b c).isLE →
      (compareKeys [.ascending] a c).isLE := fun h =>
  absurd (h ⟨[], [.int64 9007199254740993], [true]⟩ ⟨[], [.float64 ⟨0x4340000000000000⟩], [true]⟩
    ⟨[], [.int64 9007199254740992], [true]⟩ (by decide +kernel) (by decide +kernel)) (by decide +kernel)

end QueryCluster

/-!
## Equal values and their key bytes

Values that are equal in the natural order have the same key bytes but for numbers: key bytes tell
whole numbers from floats, the zeros of either sign, and the patterns that are not numbers. Tuples
that are equal value by value have the same key bytes just when no such numbers meet in them.
-/
namespace QueryCluster

namespace Value

variable {v w : Value}

theorem eq_of_comparePlace {p q : Place} (h : comparePlace p q = .eq) : p = q := by
  rcases p with ⟨c, n, s⟩
  rcases q with ⟨c', n', s'⟩
  simp only [comparePlace, compareLex_eq_eq, compareOn, Std.LawfulEqOrd.compare_eq_iff_eq] at h
  obtain ⟨rfl, rfl, rfl⟩ := h
  rfl

theorem widened_whole {i : Int} (h : v.toInt? = some i) : v.widened = int64 (Int64.ofInt i) := by
  cases v with
  | int32 a =>
    cases h
    exact congrArg int64 (Int64.ofInt_int32ToInt a).symm
  | int64 a =>
    cases h
    exact congrArg int64 (Int64.ofInt_toInt a).symm
  | _ => cases h

theorem widened_real {x : Double} (h : v.isReal) (hx : v.toDouble? = some x) : v.widened = float64 x := by
  cases v <;> cases h <;> cases hx <;> rfl

/-- A whole number and a float, zeros of different signs, or different patterns that are not
numbers. -/
def Estranged (v w : Value) : Prop :=
  Mixed v w ∨ ∃ x y, v.isReal ∧ v.toDouble? = some x ∧ w.isReal ∧ w.toDouble? = some y ∧ x ≠ y ∧
    ((x.isZero ∧ y.isZero) ∨ (x.isNaN ∧ y.isNaN))

theorem sameKey_of_toInt? {i : Int} (hv : v.toInt? = some i) (hw : w.toInt? = some i) : SameKey v w :=
  (widened_whole hv).trans (widened_whole hw).symm

theorem sameKey_or_estranged_of_rank {x y : Double} (hv : v.isReal) (hx : v.toDouble? = some x)
    (hw : w.isReal) (hy : w.toDouble? = some y) (h : x.rank = y.rank) :
    SameKey v w ∨ Estranged v w := by
  by_cases heq : x = y
  · subst heq
    exact .inl ((widened_real hv hx).trans (widened_real hw hy).symm)
  · exact .inr (.inr ⟨x, y, hv, hx, hw, hy, heq, (Double.eq_of_rank_eq h).resolve_left heq⟩)

theorem toNat_map_inj {a b : Bytes} (h : a.map UInt8.toNat = b.map UInt8.toNat) : a = b :=
  List.map_injective_iff.mpr (fun _ _ h => UInt8.toNat_inj.mp h) h

theorem ofString_inj {s u : String} (h : Bytes.ofString s = Bytes.ofString u) : s = u := by
  have hs := Codec.toString?_ofString s
  rw [h, Codec.toString?_ofString] at hs
  exact (Option.some.inj hs).symm

theorem toInt?_of_place {i : Int} (h : v.place = (2, i, [])) : v.toInt? = some i := by
  cases v <;> simp [place] at h <;> simp [toInt?, h]

theorem real_of_place {n : Int} (h : v.place = (3, n, [])) :
    ∃ x, v.isReal ∧ v.toDouble? = some x ∧ x.rank = n := by
  cases v <;> simp [place] at h <;> exact ⟨_, rfl, rfl, h⟩

/-- Values in one place have one widest form, unless they are estranged floats. -/
theorem sameKey_or_estranged_of_place (h : v.place = w.place) : SameKey v w ∨ Estranged v w := by
  cases v with
  | null =>
    cases w <;> cases h
    exact .inl rfl
  | bool b =>
    cases w <;> simp [place] at h
    rename_i c
    refine .inl (congrArg bool ?_)
    cases b <;> cases c <;> first | rfl | cases h
  | int32 i | int64 i => exact .inl (sameKey_of_toInt? rfl (toInt?_of_place h.symm))
  | float32 x | float64 x =>
    obtain ⟨y, hw, hy, hrank⟩ := real_of_place h.symm
    exact sameKey_or_estranged_of_rank rfl rfl hw hy hrank.symm
  | text s =>
    cases w <;> simp [place] at h
    exact .inl (congrArg text (ofString_inj (toNat_map_inj h)))
  | bytes bs =>
    cases w <;> simp [place] at h
    exact .inl (congrArg bytes (toNat_map_inj h))

theorem sameKey_or_estranged (h : v.natural w = .eq) : SameKey v w ∨ Estranged v w := by
  by_cases hm : Mixed v w
  · exact .inr (.inl hm)
  · rw [natural_eq hm] at h
    exact sameKey_or_estranged_of_place (eq_of_comparePlace h)

theorem exists_widened_real (h : v.isReal) : ∃ x, v.widened = float64 x := by
  cases v <;> cases h <;> exact ⟨_, rfl⟩

theorem not_sameKey_of_whole_real (hv : v.isWhole) (hw : w.isReal) : ¬ SameKey v w := by
  obtain ⟨i, hi⟩ := Option.isSome_iff_exists.mp hv
  obtain ⟨x, hx⟩ := exists_widened_real hw
  rw [SameKey, widened_whole hi, hx]
  exact Value.noConfusion

theorem Estranged.not_sameKey (h : Estranged v w) : ¬ SameKey v w := by
  rcases h with (⟨hv, hw⟩ | ⟨hv, hw⟩) | ⟨x, y, hv, hx, hw, hy, hne, _⟩
  · exact not_sameKey_of_whole_real hv hw
  · exact fun h => not_sameKey_of_whole_real hw hv (show w.widened = v.widened from h.symm)
  · rw [SameKey, widened_real hv hx, widened_real hw hy]
    exact fun h => hne (float64.inj h)

theorem measured_of_number (h : v.isWhole ∨ v.isReal) : v.Measured := by
  cases v <;> first | trivial | simp [isWhole, toInt?, isReal] at h

theorem Estranged.measured (h : Estranged v w) : v.Measured ∧ w.Measured := by
  rcases h with (⟨hv, hw⟩ | ⟨hv, hw⟩) | ⟨x, y, hv, _, hw, _⟩
  · exact ⟨measured_of_number (.inl hv), measured_of_number (.inr hw)⟩
  · exact ⟨measured_of_number (.inr hv), measured_of_number (.inl hw)⟩
  · exact ⟨measured_of_number (.inr hv), measured_of_number (.inr hw)⟩

end Value

/-- Tuples that are equal value by value have the same key bytes just when no position estranges
them. -/
theorem keyBytes_eq_iff_of_natural {vs ws : List Value}
    (h : List.Forall₂ (fun v w => v.natural w = .eq) vs ws) :
    keyBytes vs = keyBytes ws ↔ List.Forall₂ (fun v w => ¬ Value.Estranged v w) vs ws := by
  induction h with
  | nil => exact ⟨fun _ => .nil, fun _ => rfl⟩
  | cons hvw _ ih =>
    rw [keyBytes_cons, keyBytes_cons, List.forall₂_cons, ← ih]
    rcases Value.sameKey_or_estranged hvw with hsame | hestranged
    · rw [hsame.keyBytes_eq, List.append_right_inj]
      exact ⟨fun h => ⟨fun hestranged => hestranged.not_sameKey hsame, h⟩, And.right⟩
    · -- The key bytes of estranged numbers can be read back, so no rest makes up for them.
      refine ⟨fun h => ?_, fun h => absurd hestranged h.1⟩
      obtain ⟨hv, hw⟩ := hestranged.measured
      exact absurd (Value.sameKey_of_append hv hw h).1 hestranged.not_sameKey

end QueryCluster
