import Mathlib.Logic.Function.Iterate
import Mathlib.Order.Bounds.Basic
import QueryCluster.Proofs.Graph.Counting

/-!
# The largest parallelism that fits

A plan never needs fewer executors at a higher parallelism, so the parallelisms that some executors
allow are all those up to a largest one. The search for it keeps a lower bound that fits and an upper
bound above which nothing does, and every pass at least halves the distance between the two.
-/
namespace QueryCluster

namespace Plan

section Growth

variable {scan : TableScan} {p q : UInt64}

theorem scanWidth_mono (h : p ≤ q) : scanWidth scan p ≤ scanWidth scan q := by
  rw [UInt64.le_iff_toNat_le] at h ⊢
  simp only [scanWidth, show ∀ a b : UInt64, min a b = if a ≤ b then a else b from fun _ _ => rfl,
    UInt64.le_iff_toNat_le]
  split <;> split <;> omega

theorem top_mono (h : p ≤ q) (stages : List Stage) :
    (extentOf scan p stages).top ≤ (extentOf scan q stages).top := by
  induction stages with
  | nil => exact scanWidth_mono h
  | cons stage below ih =>
    cases stage with
    | filter | project => exact ih
    | group | sort | limit => exact UInt64.le_refl 1

theorem demandOf_mono (h : p ≤ q) (stages : List Stage) :
    demandOf scan p stages ≤ demandOf scan q stages := by
  induction stages with
  | nil => exact UInt64.le_iff_toNat_le.mp (scanWidth_mono h)
  | cons stage below ih =>
    have htop := UInt64.le_iff_toNat_le.mp (@top_mono scan _ _ h below)
    have hp := UInt64.le_iff_toNat_le.mp h
    cases stage <;> simp only [demandOf] <;> omega

theorem demand_mono (plan : Plan) (h : p ≤ q) : plan.demand p ≤ plan.demand q := by
  have hbelow := @demandOf_mono plan.scan _ _ h plan.stages
  -- The executor that gathers the rows of a wide top is there at `q` if it is there at `p`.
  have hgather : 1 < (plan.extent p).top → 1 < (plan.extent q).top :=
    fun hp => UInt64.lt_of_lt_of_le hp (top_mono h plan.stages)
  rw [demand, demand]
  by_cases hp : 1 < (plan.extent p).top
  · rw [if_pos hp, if_pos (hgather hp)]
    exact Nat.add_le_add_right hbelow 1
  · rw [if_neg hp]
    exact Nat.le_trans hbelow (Nat.le_add_right _ _)

end Growth

section Search

variable {test : Nat → Bool} {lo hi : Nat}

/-- One pass of the search, on its lower and its upper bound. -/
def narrow (test : Nat → Bool) : Nat × Nat → Nat × Nat
  | (lo, hi) =>
    if lo < hi then
      let mid := lo + (hi - lo + 1) / 2
      if test mid then (mid, hi) else (lo, mid - 1)
    else (lo, hi)

theorem lastPassing_narrow (test : Nat → Bool) (lo hi : Nat) :
    lastPassing test (narrow test (lo, hi)).1 (narrow test (lo, hi)).2 = lastPassing test lo hi := by
  rw [lastPassing.eq_def test lo hi]
  simp only [narrow]
  by_cases hlt : lo < hi
  · rw [if_pos hlt, if_pos hlt]
    split <;> rfl
  · rw [if_neg hlt, if_neg hlt, lastPassing, if_neg hlt]

/-- Between two bounds nothing passes above a failure. -/
def Downward (test : Nat → Bool) (least most : Nat) : Prop :=
  ∀ p q, least ≤ p → p ≤ q → q ≤ most → test q → test p

/-- What the bounds stand for: the lower one passes, and nothing above the upper one does. -/
structure Brackets (test : Nat → Bool) (most : Nat) (b : Nat × Nat) : Prop where
  le : b.1 ≤ b.2
  le_most : b.2 ≤ most
  passes : test b.1
  fails : ∀ p, b.2 < p → p ≤ most → test p = false

variable {least most : Nat} {b : Nat × Nat}

theorem Brackets.narrow (hdown : Downward test least most) (hleast : least ≤ b.1)
    (h : Brackets test most b) : Brackets test most (narrow test b) := by
  obtain ⟨lo, hi⟩ := b
  obtain ⟨hle, hmost, hpasses, hfails⟩ := h
  simp only at hle hmost hpasses hfails hleast
  simp only [Plan.narrow]
  split
  · rename_i hlt
    by_cases hmid : test (lo + (hi - lo + 1) / 2)
    · rw [if_pos hmid]
      exact ⟨by simp only; omega, hmost, hmid, hfails⟩
    · rw [if_neg hmid]
      refine ⟨by simp only; omega, by simp only; omega, hpasses, fun p hp hpmost => ?_⟩
      simp only at hp
      refine Bool.eq_false_iff.mpr fun htest => hmid ?_
      exact hdown _ p (by omega) (by omega) hpmost htest
  · exact ⟨hle, hmost, hpasses, hfails⟩

theorem narrow_fst_ge (test : Nat → Bool) (b : Nat × Nat) : b.1 ≤ (narrow test b).1 := by
  simp only [narrow]
  split
  · split <;> simp only <;> omega
  · exact Nat.le_refl _

theorem iterate_fst_ge (test : Nat → Bool) (n : Nat) (b : Nat × Nat) :
    b.1 ≤ ((narrow test)^[n] b).1 := by
  induction n generalizing b with
  | zero => exact Nat.le_refl _
  | succ n ih =>
    rw [Function.iterate_succ_apply]
    exact Nat.le_trans (narrow_fst_ge test b) (ih _)

theorem narrow_halves (test : Nat → Bool) (b : Nat × Nat) :
    2 * ((narrow test b).2 - (narrow test b).1) ≤ b.2 - b.1 := by
  simp only [narrow]
  split
  · split <;> simp only <;> omega
  · simp only
    omega

theorem lastPassing_iterate (test : Nat → Bool) (n : Nat) (b : Nat × Nat) :
    lastPassing test ((narrow test)^[n] b).1 ((narrow test)^[n] b).2 = lastPassing test b.1 b.2 := by
  induction n generalizing b with
  | zero => rfl
  | succ n ih => rw [Function.iterate_succ_apply, ih, lastPassing_narrow]

theorem iterate_halves (test : Nat → Bool) (n : Nat) (b : Nat × Nat) :
    2 ^ n * (((narrow test)^[n] b).2 - ((narrow test)^[n] b).1) ≤ b.2 - b.1 := by
  induction n generalizing b with
  | zero => simp
  | succ n ih =>
    rw [Function.iterate_succ_apply, Nat.pow_succ', Nat.mul_assoc]
    exact Nat.le_trans (Nat.mul_le_mul_left 2 (ih _)) (narrow_halves test b)

theorem Brackets.iterate (hdown : Downward test least most) (hleast : least ≤ b.1)
    (h : Brackets test most b) (n : Nat) : Brackets test most ((Plan.narrow test)^[n] b) := by
  induction n generalizing b with
  | zero => exact h
  | succ n ih =>
    rw [Function.iterate_succ_apply]
    exact ih (Nat.le_trans hleast (narrow_fst_ge test b)) (h.narrow hdown hleast)

/-- After as many passes as the distance has binary digits, the bounds have met at the result. -/
theorem Brackets.met (hdown : Downward test least most) (hleast : least ≤ b.1)
    (h : Brackets test most b) {n : Nat} (hn : b.2 - b.1 < 2 ^ n) :
    (Plan.narrow test)^[n] b = (lastPassing test b.1 b.2, lastPassing test b.1 b.2) := by
  have hend := h.iterate hdown hleast n
  have hhalves := iterate_halves test n b
  rw [← lastPassing_iterate test n b]
  generalize (Plan.narrow test)^[n] b = e at hend hhalves ⊢
  obtain ⟨lo, hi⟩ := e
  obtain rfl : lo = hi := by
    have hle : lo ≤ hi := hend.le
    have hzero : hi - lo = 0 := by
      by_contra hne
      have hone : 2 ^ n * 1 ≤ 2 ^ n * (hi - lo) := Nat.mul_le_mul_left _ (by omega)
      simp only at hhalves
      omega
    omega
  rw [lastPassing, if_neg (Nat.lt_irrefl lo)]

/-- The result lies between the bounds and passes, and nothing above it does. -/
theorem Brackets.result (hdown : Downward test least most) (hleast : least ≤ b.1)
    (h : Brackets test most b) :
    least ≤ lastPassing test b.1 b.2 ∧
      Brackets test most (lastPassing test b.1 b.2, lastPassing test b.1 b.2) := by
  have hmet := h.met hdown hleast (Nat.lt_two_pow_self (n := b.2 - b.1))
  have hend := h.iterate hdown hleast (b.2 - b.1)
  have hge := iterate_fst_ge test (b.2 - b.1) b
  rw [hmet] at hend hge
  exact ⟨Nat.le_trans hleast hge, hend⟩

theorem Brackets.start {lo hi : Nat} (hle : lo ≤ hi) (hlo : test lo) : Brackets test hi (lo, hi) :=
  ⟨hle, Nat.le_refl _, hlo, fun _ hlt hmost => absurd hlt (Nat.not_lt.mpr hmost)⟩

theorem lastPassing_isGreatest (hdown : Downward test lo hi) (hle : lo ≤ hi) (hlo : test lo) :
    IsGreatest {p | lo ≤ p ∧ p ≤ hi ∧ test p} (lastPassing test lo hi) := by
  obtain ⟨hleast, hresult⟩ := (Brackets.start hle hlo).result hdown (Nat.le_refl _)
  refine ⟨⟨hleast, hresult.le_most, hresult.passes⟩, fun p ⟨_, hmost, hp⟩ => ?_⟩
  refine Nat.le_of_not_lt fun hlt => ?_
  rw [hresult.fails p hlt hmost] at hp
  cases hp

end Search

/-- The parallelisms between two bounds at which a plan finds executors enough. -/
def feasible (plan : Plan) (free : UInt64) (least most : Nat) : Set Nat :=
  {p | max least 1 ≤ p ∧ p ≤ most ∧ ∃ n, plan.executorCount (.ofNat p) = .ok n ∧ n ≤ free}

section Sizing

variable {plan : Plan} {free : UInt64} {least most : Nat}

theorem ofNat_ne_zero {p : Nat} (hp : 1 ≤ p) (hword : p < 2 ^ 64) : UInt64.ofNat p ≠ 0 := by
  intro h
  have := congrArg UInt64.toNat h
  rw [UInt64.toNat_ofNat_of_lt' hword] at this
  exact absurd this (by simp; omega)

theorem ofNat_mono {p q : Nat} (h : p ≤ q) (hword : q < 2 ^ 64) :
    UInt64.ofNat p ≤ UInt64.ofNat q := by
  rw [UInt64.le_iff_toNat_le, UInt64.toNat_ofNat_of_lt' (Nat.lt_of_le_of_lt h hword),
    UInt64.toNat_ofNat_of_lt' hword]
  exact h

theorem fits_iff {p : Nat} :
    plan.fits free p ↔ ∃ n, plan.executorCount (.ofNat p) = .ok n ∧ n ≤ free := by
  rw [fits]
  cases plan.executorCount (.ofNat p) <;> simp

theorem executorCount_mono {p q : Nat} (hp : 1 ≤ p) (hpq : p ≤ q) (hword : q < 2 ^ 64)
    (hq : plan.demand (.ofNat q) < 2 ^ 64) :
    ∃ m n, plan.executorCount (.ofNat p) = .ok m ∧ plan.executorCount (.ofNat q) = .ok n ∧ m ≤ n := by
  have hmono := plan.demand_mono (ofNat_mono hpq hword)
  exact ⟨_, _, executorCount_eq (ofNat_ne_zero hp (by omega)) (by omega),
    executorCount_eq (ofNat_ne_zero (by omega) hword) hq, ofNat_mono hmono hq⟩

theorem fits_of_le {p q : Nat} (hp : 1 ≤ p) (hpq : p ≤ q) (hword : q < 2 ^ 64)
    (hq : plan.demand (.ofNat q) < 2 ^ 64) (h : plan.fits free q) : plan.fits free p := by
  obtain ⟨m, n, hm, hn, hle⟩ := executorCount_mono hp hpq hword hq
  obtain ⟨n', hn', hfree⟩ := fits_iff.mp h
  obtain rfl : n = n' := Except.ok.inj (hn.symm.trans hn')
  exact fits_iff.mpr ⟨m, hm, UInt64.le_trans hle hfree⟩

theorem mem_feasible {p : Nat} :
    p ∈ plan.feasible free least most ↔ max least 1 ≤ p ∧ p ≤ most ∧ plan.fits free p :=
  and_congr_right' (and_congr_right' fits_iff.symm)

theorem feasible_eq_fits : plan.feasible free least most =
    {p | max least 1 ≤ p ∧ p ≤ most ∧ plan.fits free p} :=
  Set.ext fun _ => mem_feasible

theorem maxParallelism_cases (hdown : Downward (plan.fits free) (max least 1) most) :
    (plan.maxParallelism free least most = none ∧ plan.feasible free least most = ∅) ∨
      ∃ p, plan.maxParallelism free least most = some p ∧
        IsGreatest (plan.feasible free least most) p ∧
        ∀ passes, most - max least 1 < 2 ^ passes →
          (narrow (plan.fits free))^[passes] (max least 1, most) = (p, p) := by
  by_cases hstart : max least 1 ≤ most ∧ plan.fits free (max least 1)
  · obtain ⟨hle, hfits⟩ := hstart
    refine .inr ⟨lastPassing (plan.fits free) (max least 1) most, ?_, ?_,
      fun passes hpasses => (Brackets.start hle hfits).met hdown (Nat.le_refl _) hpasses⟩
    · simp [maxParallelism, hfits, Nat.not_lt.mpr hle]
    · rw [feasible_eq_fits]
      exact lastPassing_isGreatest hdown hle hfits
  · refine .inl ⟨?_, Set.eq_empty_iff_forall_notMem.mpr fun p hp => hstart ?_⟩
    · rw [maxParallelism]
      refine if_pos ?_
      rcases not_and_or.mp hstart with hlt | hfits
      · simp only [Nat.lt_of_not_le hlt, decide_true, Bool.true_or]
      · simp only [Bool.eq_false_iff.mpr hfits, Bool.not_false, Bool.or_true]
    · obtain ⟨hleast, hmost, hfits⟩ := mem_feasible.mp hp
      exact ⟨Nat.le_trans hleast hmost, hdown _ p (Nat.le_refl _) hleast hmost hfits⟩

/-- As long as its counts fit a word, a plan needs no fewer executors at a higher parallelism, and
sizing gives the largest parallelism that there are executors for, or nothing if there is none. Its
bounds have met after one pass for each binary digit of their distance. -/
theorem maxParallelism_isGreatest (plan : Plan) (free : UInt64) {least most : Nat}
    (hword : most < 2 ^ 64)
    (hcounts : ∀ p, max least 1 ≤ p → p ≤ most → plan.demand (.ofNat p) < 2 ^ 64) :
    (∀ p q, max least 1 ≤ p → p ≤ q → q ≤ most → ∃ m n,
        plan.executorCount (.ofNat p) = .ok m ∧ plan.executorCount (.ofNat q) = .ok n ∧ m ≤ n) ∧
      (∀ p, plan.maxParallelism free least most = some p ↔
        IsGreatest (plan.feasible free least most) p) ∧
      (plan.maxParallelism free least most = none ↔ plan.feasible free least most = ∅) ∧
      ∀ p passes, plan.maxParallelism free least most = some p → most - max least 1 < 2 ^ passes →
        (narrow (plan.fits free))^[passes] (max least 1, most) = (p, p) := by
  have hpos : 1 ≤ max least 1 := Nat.le_max_right least 1
  have hdown : Downward (plan.fits free) (max least 1) most := fun p q hp hpq hq =>
    fits_of_le (by omega) hpq (by omega) (hcounts q (by omega) hq)
  refine ⟨fun p q hp hpq hq =>
    executorCount_mono (by omega) hpq (by omega) (hcounts q (by omega) hq), ?_⟩
  rcases maxParallelism_cases hdown with ⟨hnone, hempty⟩ | ⟨r, hsome, hgreatest, hmet⟩
  · rw [hnone, hempty]
    exact ⟨fun p => ⟨fun h => (by cases h), fun h => h.1.elim⟩, by simp, fun p _ h => (by cases h)⟩
  · rw [hsome]
    refine ⟨fun p => ⟨?_, fun h => congrArg some (hgreatest.unique h)⟩,
      ⟨fun h => (by cases h), fun h => ?_⟩, ?_⟩
    · rintro ⟨⟩
      exact hgreatest
    · exact (h ▸ hgreatest.1 : r ∈ (∅ : Set Nat)).elim
    · rintro p passes ⟨⟩ hpasses
      exact hmet passes hpasses

end Sizing

section Grouped

/-! A limit over groups of a scan of four partitions: eight executors at a parallelism of three and ten
at four. -/

def groupedPlan : Plan where
  stages := [.limit 5, .group ["a"] []]
  scan :=
    { catalog := "c", schema := "s", table := "t", columns := { columns := [] }, partitions := 4,
      filters := [] }

theorem maxParallelism_isGreatest_grouped :
    (∀ p, max 1 1 ≤ p → p ≤ 1000 → groupedPlan.demand (.ofNat p) < 2 ^ 64) ∧
      IsGreatest (groupedPlan.feasible 9 1 1000) 3 ∧ groupedPlan.maxParallelism 9 1 1000 = some 3 ∧
      (narrow (groupedPlan.fits 9))^[10] (1, 1000) = (3, 3) := by
  have hcounts : ∀ p, max 1 1 ≤ p → p ≤ 1000 → groupedPlan.demand (.ofNat p) < 2 ^ 64 := by
    intro p _ hp
    refine Nat.lt_of_le_of_lt (groupedPlan.demand_mono (ofNat_mono hp (by decide))) ?_
    decide
  obtain ⟨hmono, hiff, _, hmet⟩ := maxParallelism_isGreatest groupedPlan 9 (by decide) hcounts
  have hthree : groupedPlan.executorCount (.ofNat 3) = .ok 8 := rfl
  have hfour : groupedPlan.executorCount (.ofNat 4) = .ok 10 := rfl
  have hgreatest : IsGreatest (groupedPlan.feasible 9 1 1000) 3 := by
    refine ⟨⟨by decide, by decide, 8, hthree, by decide⟩, fun p hp => ?_⟩
    obtain ⟨_, hmost, n, hn, hfree⟩ := hp
    refine Nat.le_of_not_lt fun hlt => ?_
    obtain ⟨m, n', hm, hn', hle⟩ := hmono 4 p (by decide) hlt hmost
    obtain rfl : 10 = m := Except.ok.inj (hfour.symm.trans hm)
    obtain rfl : n = n' := Except.ok.inj (hn.symm.trans hn')
    exact absurd (UInt64.le_trans hle hfree) (by decide)
  have hsome := (hiff 3).mpr hgreatest
  exact ⟨hcounts, hgreatest, hsome, hmet 3 10 hsome (by decide)⟩

end Grouped

end Plan
end QueryCluster
