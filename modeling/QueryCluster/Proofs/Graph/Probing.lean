import QueryCluster.Proofs.Graph.Sizing

/-!
# Where sizing asks, and what its sums come to

Sizing counts a plan at the lower bound and then at the middle of what is left, so it depends on the
counts at these parallelisms and on no others. A count is made of sums of words. If none of those made
where sizing asks overflows, its result is that of a search over exact counts, and none overflows for
any number of executors just if the exact count at the upper bound fits a word.
-/
namespace QueryCluster

namespace Plan

section Sums

variable (scan : TableScan) (p : UInt64)

end Sums

section Asked

variable {test exact : Nat → Bool} {lo hi : Nat}

/-- Where the search for the last that passes asks. -/
def asked (test : Nat → Bool) (lo hi : Nat) : List Nat :=
  if lo < hi then
    let mid := lo + (hi - lo + 1) / 2
    mid :: if test mid then asked test mid hi else asked test lo (mid - 1)
  else []
termination_by hi - lo
decreasing_by all_goals omega

theorem lastPassing_congr (h : ∀ p ∈ asked test lo hi, test p = exact p) :
    lastPassing test lo hi = lastPassing exact lo hi := by
  fun_induction asked test lo hi with
  | case1 lo hi hlt mid ihpass ihfail =>
    obtain ⟨hmid, hrest⟩ := List.forall_mem_cons.mp h
    rw [lastPassing.eq_def test, lastPassing.eq_def exact, if_pos hlt, if_pos hlt]
    by_cases htest : test mid
    · rw [if_pos htest] at hrest
      refine (if_pos htest).trans ((ihpass hrest).trans (if_pos ?_).symm)
      rwa [← hmid]
    · rw [if_neg htest] at hrest
      refine (if_neg htest).trans ((ihfail hrest).trans (if_neg ?_).symm)
      rwa [← hmid]
  | case2 lo hi hlt =>
    rw [lastPassing.eq_def test, lastPassing.eq_def exact, if_neg hlt, if_neg hlt]

theorem asked_bounds {p : Nat} (h : p ∈ asked test lo hi) : lo < p ∧ p ≤ hi := by
  fun_induction asked test lo hi with
  | case1 lo hi hlt mid ihpass ihfail =>
    rcases List.mem_cons.mp h with rfl | h
    · omega
    · split at h
      · have := ihpass h
        omega
      · have := ihfail h
        omega
  | case2 => cases h

/-- A search that nothing stops asks for its upper bound. -/
theorem mem_asked_hi (hlt : lo < hi) (h : ∀ p, lo < p → p ≤ hi → test p) :
    hi ∈ asked test lo hi := by
  fun_induction asked test lo hi with
  | case1 lo hi _ mid ihpass ihfail =>
    rw [if_pos (h mid (by omega) (by omega))]
    rcases Nat.lt_or_eq_of_le (show mid ≤ hi by omega) with hmid | hmid
    · exact List.mem_cons_of_mem _ (ihpass hmid fun p hp => h p (by omega))
    · exact hmid ▸ List.mem_cons_self
  | case2 lo hi hnot => exact absurd hlt hnot

end Asked

section Probes

variable {plan : Plan} {free : UInt64} {least most : Nat}

/-- Where sizing counts a plan. -/
def probes (plan : Plan) (free : UInt64) (least most : Nat) : List Nat :=
  let least := max least 1
  if most < least then []
  else if plan.fits free least then least :: asked (plan.fits free) least most
  else [least]

/-- The parallelisms between two bounds that so many executors are enough for. -/
def affordable (plan : Plan) (free least most : Nat) : Set Nat :=
  {p | max least 1 ≤ p ∧ p ≤ most ∧ plan.demand (.ofNat p) ≤ free}

theorem probes_bounds {p : Nat} (h : p ∈ plan.probes free least most) : max least 1 ≤ p ∧ p ≤ most := by
  simp only [probes] at h
  split at h
  · cases h
  split at h
  · rcases List.mem_cons.mp h with rfl | h
    · omega
    · have := asked_bounds h
      omega
  · obtain rfl := List.mem_singleton.mp h
    omega

theorem fits_eq {p : Nat} (hp : 1 ≤ p) (hword : p < 2 ^ 64) (h : plan.demand (.ofNat p) < 2 ^ 64) :
    plan.fits free p = decide (plan.demand (.ofNat p) ≤ free.toNat) := by
  simp only [fits, executorCount_eq (ofNat_ne_zero hp hword) h]
  simp only [UInt64.le_iff_toNat_le, UInt64.toNat_ofNat_of_lt' h]

theorem feasible_eq_affordable (hword : most < 2 ^ 64) (h : plan.demand (.ofNat most) < 2 ^ 64) :
    plan.feasible free least most = plan.affordable free.toNat least most := by
  ext p
  rw [mem_feasible]
  refine and_congr_right fun hleast => and_congr_right fun hmost => ?_
  have hdemand := Nat.lt_of_le_of_lt (plan.demand_mono (ofNat_mono hmost hword)) h
  rw [fits_eq (by omega) (by omega) hdemand, decide_eq_true_iff]

/-- Where no sum overflows, sizing finds the largest parallelism that the executors are enough for. -/
theorem maxParallelism_exact (hle : max least 1 ≤ most) (hword : most < 2 ^ 64)
    (hprobes : ∀ p ∈ plan.probes free least most, plan.demand (.ofNat p) < 2 ^ 64) :
    (free.toNat < plan.demand (.ofNat (max least 1)) ∧ plan.maxParallelism free least most = none) ∨
      ∃ p, plan.maxParallelism free least most = some p ∧
        IsGreatest (plan.affordable free.toNat least most) p := by
  -- The search runs over `fits`, which need not go downward where a count wraps. It takes the same
  -- turns as one over the exact counts, which do.
  let exact : Nat → Bool := fun p => plan.demand (.ofNat p) ≤ free.toNat
  have hprobe : ∀ p ∈ plan.probes free least most, plan.fits free p = exact p := fun p hp =>
    have ⟨hleast, hmost⟩ := probes_bounds hp
    fits_eq (by omega) (by omega) (hprobes p hp)
  have hdown : Downward exact (max least 1) most := fun p q _ hpq hq h =>
    decide_eq_true (Nat.le_trans (plan.demand_mono (ofNat_mono hpq (by omega))) (of_decide_eq_true h))
  simp only [probes, if_neg (Nat.not_lt.mpr hle)] at hprobe
  simp only [maxParallelism, Nat.not_lt.mpr hle, decide_false, Bool.false_or]
  by_cases hfits : plan.fits free (max least 1)
  · rw [if_pos hfits] at hprobe
    obtain ⟨hleast, hasked⟩ := List.forall_mem_cons.mp hprobe
    refine .inr ⟨_, by rw [hfits]; rfl, ?_⟩
    rw [lastPassing_congr hasked]
    have hgreatest := lastPassing_isGreatest hdown hle (hleast ▸ hfits)
    simpa only [affordable, exact, decide_eq_true_eq] using hgreatest
  · rw [if_neg hfits] at hprobe
    have hleast := hprobe _ (List.mem_singleton_self _)
    refine .inl ⟨?_, by rw [Bool.eq_false_iff.mpr hfits]; rfl⟩
    rw [Bool.eq_false_iff.mpr hfits] at hleast
    exact Nat.lt_of_not_le (of_decide_eq_false hleast.symm)

/-- Whatever number of executors is free, no sum overflows where sizing asks, just if the count at the
upper bound fits a word. -/
theorem probes_demand_lt_iff (hle : max least 1 ≤ most) (hword : most < 2 ^ 64) :
    (∀ free, ∀ p ∈ plan.probes free least most, plan.demand (.ofNat p) < 2 ^ 64) ↔
      plan.demand (.ofNat most) < 2 ^ 64 := by
  refine ⟨fun h => h (.ofNat (2 ^ 64 - 1)) most ?_, fun h free p hp => ?_⟩
  -- With the largest number of executors every count fits, so the search goes up to the upper bound.
  · have hfits : ∀ p, 1 ≤ p → p < 2 ^ 64 → plan.fits (.ofNat (2 ^ 64 - 1)) p := by
      intro p hp hword
      refine fits_iff.mpr ⟨_, if_neg (ofNat_ne_zero hp hword), UInt64.le_iff_toNat_le.mpr ?_⟩
      exact Nat.le_of_lt_succ (UInt64.toNat_lt _)
    simp only [probes, if_neg (Nat.not_lt.mpr hle), hfits (max least 1) (by omega) (by omega), if_true]
    rcases Nat.lt_or_eq_of_le hle with hlt | heq
    · exact List.mem_cons_of_mem _ (mem_asked_hi hlt fun p _ _ => hfits p (by omega) (by omega))
    · exact heq ▸ List.mem_cons_self
  · have ⟨_, hmost⟩ := probes_bounds hp
    exact Nat.lt_of_le_of_lt (plan.demand_mono (ofNat_mono hmost hword)) h

end Probes

end Plan
end QueryCluster
