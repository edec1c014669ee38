import Mathlib.Data.Nat.Digits.Defs
import QueryCluster.Number.Integer

/-!
# Whole numbers read back

The decimal digits of a number in range are read as the number.
-/
namespace QueryCluster.Number

variable {limit acc : Nat} {beyond : IntegerFault} {cs : List Char}

theorem le_ofDigitChars : acc ≤ Nat.ofDigitChars 10 cs acc := by
  induction cs generalizing acc with
  | nil => simp
  | cons c cs ih =>
    rw [Nat.ofDigitChars_cons]
    have hrest : 10 * acc + (c.toNat - '0'.toNat) ≤ _ := ih
    omega

theorem readDigits_eq_ok (hdigit : ∀ c ∈ cs, c.isDigit = true)
    (hle : Nat.ofDigitChars 10 cs acc ≤ limit) :
    readDigits limit beyond acc cs = .ok (Nat.ofDigitChars 10 cs acc) := by
  induction cs generalizing acc with
  | nil => simp [readDigits]
  | cons c cs ih =>
    obtain ⟨hc, hrest⟩ := List.forall_mem_cons.mp hdigit
    rw [Nat.ofDigitChars_cons] at hle ⊢
    have hstep : acc * 10 + (c.toNat - 48) = 10 * acc + (c.toNat - '0'.toNat) := by
      rw [Nat.mul_comm]
      rfl
    rw [readDigits, if_pos hc, hstep]
    rw [if_pos (le_ofDigitChars.trans hle)]
    exact ih hrest hle

theorem toDigits_ne_nil (n : Nat) : Nat.toDigits 10 n ≠ [] :=
  List.ne_nil_of_length_pos Nat.length_toDigits_pos

theorem isDigit_of_mem_toDigits {n : Nat} {c : Char} (h : c ∈ Nat.toDigits 10 n) :
    c.isDigit = true :=
  Nat.isDigit_of_mem_toDigits (by decide) (by decide) h

theorem readDigits_toDigits {n : Nat} (h : n ≤ limit) :
    readDigits limit beyond 0 (Nat.toDigits 10 n) = .ok n := by
  have hvalue : Nat.ofDigitChars 10 (Nat.toDigits 10 n) 0 = n := by simp
  rw [readDigits_eq_ok (fun c => isDigit_of_mem_toDigits) (by rw [hvalue]; exact h), hvalue]

theorem readSigned_digits (hne : cs ≠ []) (hdigit : ∀ c ∈ cs, c.isDigit = true) :
    readSigned limit cs = (readDigits limit .tooLarge 0 cs).map Int.ofNat := by
  have hsign : ∀ c tail, cs = c :: tail → c ≠ '-' ∧ c ≠ '+' := by
    rintro c tail rfl
    have hc := hdigit c List.mem_cons_self
    constructor
    · rintro rfl
      exact absurd hc (by decide)
    · rintro rfl
      exact absurd hc (by decide)
  unfold readSigned
  split
  · exact absurd rfl hne
  · exact absurd rfl (hsign _ _ rfl).1
  · exact absurd rfl (hsign _ _ rfl).1
  · exact absurd rfl (hsign _ _ rfl).2
  · exact absurd rfl (hsign _ _ rfl).2
  · rfl

theorem readSigned_minus (hne : cs ≠ []) :
    readSigned limit ('-' :: cs) =
      (readDigits (limit + 1) .tooSmall 0 cs).map fun n => -(n : Int) := by
  obtain ⟨c, cs, rfl⟩ := List.exists_cons_of_ne_nil hne
  rfl

theorem toList_toString_ofNat (n : Nat) : (toString (Int.ofNat n)).toList = Nat.toDigits 10 n :=
  Nat.toList_repr

theorem toList_toString_negSucc (n : Nat) :
    (toString (Int.negSucc n)).toList = '-' :: Nat.toDigits 10 (n + 1) := by
  change ("-" ++ Nat.repr (n + 1)).toList = _
  rw [String.toList_append, Nat.toList_repr]
  rfl

theorem readSigned_toString {i : Int} (hlow : -(limit + 1 : Int) ≤ i) (hhigh : i ≤ limit) :
    readSigned limit (toString i).toList = .ok i := by
  cases i with
  | ofNat n =>
    rw [toList_toString_ofNat,
      readSigned_digits (toDigits_ne_nil n) fun c => isDigit_of_mem_toDigits,
      readDigits_toDigits (by simpa using hhigh)]
    rfl
  | negSucc n =>
    rw [toList_toString_negSucc, readSigned_minus (toDigits_ne_nil _),
      readDigits_toDigits (by omega)]
    simp [Except.map, Int.negSucc_eq]

end QueryCluster.Number
