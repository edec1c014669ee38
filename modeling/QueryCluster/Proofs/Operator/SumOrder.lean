import Mathlib.Data.List.Perm.Basic
import QueryCluster.Proofs.Operator.AggregateValues

/-!
# Sums in any order

The values of a group reach its integer sum in some order, and every running sum must be a 64-bit integer.
A sum that comes out is exact, so all orders that give one give the same. Whether one comes out is another
matter: all orders agree just if no order can give the sum, for it is no 64-bit integer, or if every order
does, for neither the positive nor the negative values alone leave the range. In between some order gives
the sum and another overflows.
-/
namespace QueryCluster

namespace Summation

/-- An integer of either width, or null. -/
def Summand (v : Value) : Prop := v.Fits .int32 ∨ v.Fits .int64

instance (v : Value) : Decidable (Summand v) := inferInstanceAs (Decidable (_ ∨ _))

instance (n : Int) : Decidable (Storable n) := inferInstanceAs (Decidable (_ ∧ _))

/-- What a value adds to a sum. -/
def weight (v : Value) : Int := v.toInt?.getD 0

def total (vs : List Value) : Int := (vs.map weight).sum

/-- The sum of the positive values. -/
def gain (vs : List Value) : Int := total (vs.filter (0 < weight ·))

/-- The sum of the negative values. -/
def loss (vs : List Value) : Int := total (vs.filter (weight · < 0))

/-- What the integer sum of a group comes to when it is fed some values. -/
def outcome (vs : List Value) : Except ArithmeticFault Value :=
  (vs.foldlM (fun a v => Accumulator.update (some v) a) (Accumulator.start .sum .int64)).map Accumulator.result

/-- The sum of all values, in 64 bits; that of no values is null. -/
def exact (vs : List Value) : Value :=
  if ∀ v ∈ vs, v.isNull then .null else .int64 (Int64.ofInt (total vs))

/-- Running sums that start at `s` and stay within 64 bits. -/
def Steady (s : Int) (vs : List Value) : Prop := ∀ front, front <+: vs → Storable (s + total front)

variable {v : Value} {vs ws : List Value} {s : Int}

@[simp] theorem total_nil : total [] = 0 := rfl

@[simp] theorem total_cons (v : Value) (vs : List Value) : total (v :: vs) = weight v + total vs :=
  List.sum_cons

theorem total_perm (h : ws.Perm vs) : total ws = total vs := (h.map weight).sum_eq

theorem exact_perm (h : ws.Perm vs) : exact ws = exact vs := by
  have hnull : (∀ v ∈ ws, v.isNull) ↔ ∀ v ∈ vs, v.isNull := by simp only [h.mem_iff]
  simp only [exact, hnull, total_perm h]

/-- A value that can be added is null and adds nothing, or an integer within 64 bits. -/
theorem Summand.cases (h : Summand v) :
    (v = .null ∧ weight v = 0) ∨ (v.toInt? = some (weight v) ∧ v.isNull = false ∧ Storable (weight v)) := by
  cases v with
  | null => exact .inl ⟨rfl, rfl⟩
  | int32 i =>
    have hlo : (-2147483648 : Int) ≤ i.toInt := i.le_toInt
    have hhi : i.toInt < 2147483648 := i.toInt_lt
    have hmin : Int64.minValue.toInt = -9223372036854775808 := rfl
    have hmax : Int64.maxValue.toInt = 9223372036854775807 := rfl
    refine .inr ⟨rfl, rfl, ?_, ?_⟩ <;> simp only [weight, Value.toInt?, Option.getD_some] <;> omega
  | int64 i => exact .inr ⟨rfl, rfl, i.minValue_le_toInt, i.toInt_le⟩
  | bool | float32 | float64 | text | bytes => rcases h with (h | h) | (h | h) <;> cases h

/-! ## Running sums -/

theorem Steady.start (h : Steady s vs) : Storable s := by
  have hnil := h [] List.nil_prefix
  rwa [total_nil, Int.add_zero] at hnil

theorem Steady.storable_total (h : Steady s vs) : Storable (s + total vs) := h vs List.prefix_rfl

theorem steady_cons : Steady s (v :: vs) ↔ Storable s ∧ Steady (s + weight v) vs := by
  constructor
  · intro h
    refine ⟨h.start, fun front hfront => ?_⟩
    have hcons := h (v :: front) ((List.prefix_cons_inj v).mpr hfront)
    rwa [total_cons, ← Int.add_assoc] at hcons
  · rintro ⟨hs, h⟩ front hfront
    rcases List.prefix_cons_iff.mp hfront with rfl | ⟨rest, rfl, hrest⟩
    · rwa [total_nil, Int.add_zero]
    · rw [total_cons, ← Int.add_assoc]
      exact h rest hrest

theorem not_steady_iff : ¬ Steady 0 vs ↔ ∃ front, front <+: vs ∧ ¬ Storable (total front) := by
  simp [Steady]

theorem update_whole {sum : Option Int} (hsum : sum.getD 0 = s) (hint : v.toInt? = some (weight v))
    (hnull : v.isNull = false) :
    Accumulator.update (some v) (.wholeSum sum) =
      if Storable (s + weight v) then .ok (.wholeSum (some (s + weight v))) else .error .overflow := by
  subst hsum
  exact (if_neg (by simp [hnull])).trans (Accumulator.add_wholeSum hint)

/-- A sum takes in all values as long as its running sums stay within 64 bits. -/
theorem foldlM_of_steady {sum : Option Int} (hsum : sum.getD 0 = s) (hvs : ∀ v ∈ vs, Summand v)
    (h : Steady s vs) :
    ∃ next : Option Int,
      vs.foldlM (fun a v => Accumulator.update (some v) a) (.wholeSum sum) = .ok (.wholeSum next) ∧
      next.getD 0 = s + total vs ∧ (next = none ↔ sum = none ∧ ∀ v ∈ vs, v.isNull) := by
  induction vs generalizing s sum with
  | nil => exact ⟨sum, rfl, by simp [hsum], by simp⟩
  | cons v vs ih =>
    obtain ⟨hv, htail⟩ := List.forall_mem_cons.mp hvs
    obtain ⟨_, hrest⟩ := steady_cons.mp h
    rcases hv.cases with ⟨rfl, hweight⟩ | ⟨hint, hnull, _⟩
    · rw [hweight, Int.add_zero] at hrest
      obtain ⟨next, hfold, htotal, hnone⟩ := ih hsum htail hrest
      refine ⟨next, hfold, ?_, ?_⟩
      · rw [htotal, total_cons, hweight, Int.zero_add]
      · simpa [Value.isNull] using hnone
    · have hnext : (some (s + weight v)).getD 0 = s + weight v := rfl
      obtain ⟨next, hfold, htotal, hnone⟩ := ih hnext htail hrest
      refine ⟨next, ?_, ?_, ?_⟩
      · rw [List.foldlM_cons, update_whole hsum hint hnull, if_pos hrest.start]
        exact hfold
      · rw [htotal, total_cons, Int.add_assoc]
      · simp [hnone, hnull]

theorem foldlM_of_not_steady {sum : Option Int} (hsum : sum.getD 0 = s) (hvs : ∀ v ∈ vs, Summand v)
    (hs : Storable s) (h : ¬ Steady s vs) :
    vs.foldlM (fun a v => Accumulator.update (some v) a) (.wholeSum sum) = .error .overflow := by
  induction vs generalizing s sum with
  | nil =>
    refine absurd (fun front hfront => ?_) h
    rwa [List.prefix_nil.mp hfront, total_nil, Int.add_zero]
  | cons v vs ih =>
    obtain ⟨hv, htail⟩ := List.forall_mem_cons.mp hvs
    have hrest : ¬ Steady (s + weight v) vs := fun hrest => h (steady_cons.mpr ⟨hs, hrest⟩)
    rw [List.foldlM_cons]
    rcases hv.cases with ⟨rfl, hweight⟩ | ⟨hint, hnull, _⟩
    · rw [hweight, Int.add_zero] at hrest
      exact ih hsum htail hs hrest
    · rw [update_whole hsum hint hnull]
      by_cases hnext : Storable (s + weight v)
      · rw [if_pos hnext]
        exact ih rfl htail hnext hrest
      · rw [if_neg hnext]
        rfl

theorem storable_zero : Storable 0 := ⟨by decide, by decide⟩

theorem start_sum : Accumulator.start .sum .int64 = .wholeSum none := rfl

theorem outcome_of_steady (hvs : ∀ v ∈ vs, Summand v) (h : Steady 0 vs) : outcome vs = .ok (exact vs) := by
  obtain ⟨next, hfold, htotal, hnone⟩ := foldlM_of_steady Option.getD_none hvs h
  rw [outcome, start_sum, hfold, exact]
  rw [Int.zero_add] at htotal
  cases next with
  | none =>
    rw [if_pos (hnone.mp rfl).2]
    rfl
  | some n =>
    rw [if_neg fun hall => Option.some_ne_none n (hnone.mpr ⟨rfl, hall⟩), ← htotal]
    rfl

theorem outcome_of_not_steady (hvs : ∀ v ∈ vs, Summand v) (h : ¬ Steady 0 vs) :
    outcome vs = .error .overflow := by
  rw [outcome, start_sum, foldlM_of_not_steady Option.getD_none hvs storable_zero h]
  rfl

/-! ## Orders -/

/-- Whatever values are left out, the others sum to no less than the losses and no more than the gains. -/
theorem total_between (h : ws.Sublist vs) : loss vs ≤ total ws ∧ total ws ≤ gain vs := by
  induction h with
  | slnil => exact ⟨Int.le_refl 0, Int.le_refl 0⟩
  | cons v _ ih | cons_cons v _ ih =>
    by_cases hup : 0 < weight v <;> by_cases hdown : weight v < 0 <;>
      simp only [loss, gain, List.filter_cons, hup, hdown, decide_true, decide_false, if_true,
        Bool.false_eq_true, if_false, total_cons] at ih ⊢ <;>
      omega

theorem steady_of_storable (hgain : Storable (gain vs)) (hloss : Storable (loss vs)) : Steady 0 vs := by
  intro front hfront
  have hbetween := total_between hfront.sublist
  rw [Int.zero_add]
  exact ⟨Int.le_trans hloss.1 hbetween.1, Int.le_trans hbetween.2 hgain.2⟩

theorem gain_perm (h : ws.Perm vs) : gain ws = gain vs := total_perm (h.filter _)

theorem loss_perm (h : ws.Perm vs) : loss ws = loss vs := total_perm (h.filter _)

/-- The values that satisfy a test may come first, so their sum is a running sum of some order. -/
theorem storable_of_all_steady (p : Value → Bool) (h : ∀ ws : List Value, ws.Perm vs → Steady 0 ws) :
    Storable (total (vs.filter p)) := by
  have hfirst := h _ (List.filter_append_perm p vs) _ (List.prefix_append _ _)
  rwa [Int.zero_add] at hfirst

/-- As long as the sum of all is within 64 bits, some value can be added without leaving them: one against
the sign of the running sum, and if all have its sign then any. -/
theorem exists_next (hvs : ∀ v ∈ vs, Summand v) (hne : vs ≠ []) (hs : Storable s)
    (htotal : Storable (s + total vs)) : ∃ v ∈ vs, Storable (s + weight v) := by
  have hweight : ∀ v ∈ vs, Storable (weight v) := by
    intro v hv
    rcases (hvs v hv).cases with ⟨_, hzero⟩ | ⟨_, _, hstorable⟩
    · exact hzero ▸ storable_zero
    · exact hstorable
  obtain ⟨u, hu⟩ := List.exists_mem_of_ne_nil vs hne
  have hbetween := total_between (List.singleton_sublist.mpr hu)
  have hmin : Int64.minValue.toInt ≤ 0 := storable_zero.1
  have hmax : 0 ≤ Int64.maxValue.toInt := storable_zero.2
  simp only [total_cons, total_nil, Int.add_zero] at hbetween
  by_cases hup : 0 ≤ s
  · by_cases hdown : ∃ v ∈ vs, weight v ≤ 0
    · obtain ⟨v, hv, hle⟩ := hdown
      have := hweight v hv
      exact ⟨v, hv, by unfold Storable at *; omega⟩
    · have hgain : gain vs = total vs := by
        rw [gain, List.filter_eq_self.mpr fun v hv => by simpa using fun hle => hdown ⟨v, hv, hle⟩]
      have := hweight u hu
      exact ⟨u, hu, by unfold Storable at *; omega⟩
  · by_cases hback : ∃ v ∈ vs, 0 ≤ weight v
    · obtain ⟨v, hv, hle⟩ := hback
      have := hweight v hv
      exact ⟨v, hv, by unfold Storable at *; omega⟩
    · have hloss : loss vs = total vs := by
        rw [loss, List.filter_eq_self.mpr fun v hv => by simpa using fun hle => hback ⟨v, hv, hle⟩]
      have := hweight u hu
      exact ⟨u, hu, by unfold Storable at *; omega⟩

/-- Values with a sum within 64 bits have an order that gives it. -/
theorem exists_steady (hvs : ∀ v ∈ vs, Summand v) (hs : Storable s) (htotal : Storable (s + total vs)) :
    ∃ ws : List Value, ws.Perm vs ∧ Steady s ws := by
  induction hn : vs.length generalizing vs s with
  | zero =>
    obtain rfl := List.length_eq_zero_iff.mp hn
    refine ⟨[], .refl _, fun front hfront => ?_⟩
    rwa [List.prefix_nil.mp hfront, total_nil, Int.add_zero]
  | succ n ih =>
    obtain ⟨v, hv, hnext⟩ := exists_next hvs (List.ne_nil_of_length_eq_add_one hn) hs htotal
    have hperm := List.perm_cons_erase hv
    rw [total_perm hperm, total_cons, ← Int.add_assoc] at htotal
    obtain ⟨ws, hws, hsteady⟩ := ih (fun u hu => hvs u (List.mem_of_mem_erase hu)) hnext htotal
      (by rw [List.length_erase_of_mem hv, hn, Nat.add_sub_cancel])
    exact ⟨v :: ws, (hws.cons v).trans hperm.symm, steady_cons.mpr ⟨hs, hsteady⟩⟩

/-- Every order of some integers and nulls gives their exact sum or, if a running sum leaves 64 bits, an
overflow. All orders agree just if the sum of all leaves 64 bits or neither the sum of the positive
values nor that of the negative ones does. -/
theorem outcome_of_orders (hvs : ∀ v ∈ vs, Summand v) :
    (∀ ws : List Value, ws.Perm vs →
      (outcome ws = .ok (exact vs) ∧ ∀ front, front <+: ws → Storable (total front)) ∨
      (outcome ws = .error .overflow ∧ ∃ front, front <+: ws ∧ ¬ Storable (total front))) ∧
    ((∀ ws : List Value, ws.Perm vs → outcome ws = outcome vs) ↔
      ¬ Storable (total vs) ∨ (Storable (gain vs) ∧ Storable (loss vs))) := by
  have hsummands : ∀ ws : List Value, ws.Perm vs → ∀ v ∈ ws, Summand v := fun ws h v hv => hvs v (h.mem_iff.mp hv)
  refine ⟨fun ws hws => ?_, fun hsame => ?_, ?_⟩
  · by_cases h : Steady 0 ws
    · left
      refine ⟨?_, by simpa [Steady] using h⟩
      rw [outcome_of_steady (hsummands ws hws) h, exact_perm hws]
    · exact .inr ⟨outcome_of_not_steady (hsummands ws hws) h, not_steady_iff.mp h⟩
  · by_cases htotal : Storable (total vs)
    · -- one order gives the sum, and then all do, also those with the gains or the losses in front
      obtain ⟨us, hus, hsteady⟩ := exists_steady hvs storable_zero (by rwa [Int.zero_add])
      have hall : ∀ ws : List Value, ws.Perm vs → Steady 0 ws := by
        intro ws hws
        by_contra hnot
        have hfails := outcome_of_not_steady (hsummands ws hws) hnot
        rw [hsame ws hws, ← hsame us hus, outcome_of_steady (hsummands us hus) hsteady] at hfails
        cases hfails
      exact .inr ⟨storable_of_all_steady _ hall, storable_of_all_steady _ hall⟩
    · exact .inl htotal
  · rintro (htotal | ⟨hgain, hloss⟩) ws hws
    · have hfails : ∀ us : List Value, us.Perm vs → outcome us = .error .overflow := by
        intro us hus
        refine outcome_of_not_steady (hsummands us hus) fun h => htotal ?_
        rw [← total_perm hus, ← Int.zero_add (total us)]
        exact h.storable_total
      rw [hfails ws hws, hfails vs (.refl vs)]
    · rw [outcome_of_steady (hsummands ws hws) (steady_of_storable (gain_perm hws ▸ hgain) (loss_perm hws ▸ hloss)),
        outcome_of_steady hvs (steady_of_storable hgain hloss), exact_perm hws]

section Wavering

/-! The greatest integer and two values that cancel out. -/

def wavering : List Value := [.int64 Int64.maxValue, .null, .int32 1, .int64 (-1)]

theorem outcome_of_orders_wavering :
    (∀ v ∈ wavering, Summand v) ∧ outcome wavering = .error .overflow ∧
      outcome wavering.reverse = .ok (.int64 Int64.maxValue) ∧
      (¬ ∀ ws : List Value, ws.Perm wavering → outcome ws = outcome wavering) ∧
      ∀ ws : List Value, ws.Perm wavering.tail → outcome ws = .ok (.int64 0) := by
  have hsummands : ∀ v ∈ wavering, Summand v := by decide
  have hbehind : ∀ v ∈ wavering.tail, Summand v := by decide
  have hreverse : outcome wavering.reverse ≠ .error .overflow := by decide
  obtain ⟨horders, hagree⟩ := outcome_of_orders hsummands
  refine ⟨hsummands, by decide, ?_, fun h => ?_, ?_⟩
  · rcases horders _ (List.reverse_perm wavering) with ⟨hok, _⟩ | ⟨herror, _⟩
    · exact hok.trans (by decide)
    · exact absurd herror hreverse
  · rcases hagree.mp h with htotal | ⟨hgain, _⟩
    · exact htotal (by decide)
    · exact absurd hgain (by decide)
  · exact (outcome_of_orders hbehind).2.mpr (.inr ⟨by decide, by decide⟩)

/-- The order of the values decides whether their sum comes out. -/
theorem not_outcome_perm :
    ¬ ∀ vs ws : List Value, (∀ v ∈ vs, Summand v) → ws.Perm vs → outcome ws = outcome vs := by
  intro h
  have hsame := h wavering wavering.reverse (by decide) (List.reverse_perm wavering)
  exact absurd hsame (by decide)

end Wavering

end Summation
end QueryCluster
