import QueryCluster.Expr.SortItem
import QueryCluster.Proofs.Expr.Grammar
import QueryCluster.Proofs.Number.Integer

/-!
# Printed expressions are read back

An expression that was read is printed as a factor, so that its tokens are read alike in any place,
and the parentheses around conjunctions and disjunctions make up for the order of the rules. What a
text cannot carry is left out: floats, and texts with the quote that they are printed in.
-/
namespace QueryCluster

open Token (Scans IsName IsNumeral)

/-- Values that are read from what they are printed as. -/
def Value.Printable : Value → Prop
  | .null | .bool _ | .int64 _ => True
  | .text s => '\'' ∉ s.toList
  | _ => False

theorem Token.isNumeral_toString (i : Int) : IsNumeral (toString i) := by
  have hnumber : ∀ n, ∀ d ∈ Nat.toDigits 10 n, inNumber d = true := fun n d hd => by
    simp [inNumber, Char.isAlphanum, Number.isDigit_of_mem_toDigits hd]
  cases i with
  | ofNat n =>
    obtain ⟨c, body, hdigits⟩ := List.exists_cons_of_ne_nil (Number.toDigits_ne_nil n)
    refine ⟨c, body, (Number.toList_toString_ofNat n).trans hdigits, ?_, .inl ?_⟩
    · exact fun d hd => hnumber n d (hdigits ▸ List.mem_cons_of_mem c hd)
    · exact Number.isDigit_of_mem_toDigits (hdigits ▸ List.mem_cons_self)
  | negSucc n =>
    obtain ⟨c, body, hdigits⟩ := List.exists_cons_of_ne_nil (Number.toDigits_ne_nil (n + 1))
    refine ⟨'-', c :: body, ?_, ?_, .inr ⟨rfl, c, body, rfl, ?_⟩⟩
    · rw [Number.toList_toString_negSucc, hdigits]
    · exact fun d hd => hnumber (n + 1) d (hdigits ▸ hd)
    · exact Number.isDigit_of_mem_toDigits (hdigits ▸ List.mem_cons_self)

namespace Expr

variable {e l r : Expr} {ts : List Token} {word : String}

/-- Literals from left to right. -/
def literals : Expr → List Value
  | .column _ => []
  | .literal v => [v]
  | .compare l _ r => l.literals ++ r.literals
  | .and l r => l.literals ++ r.literals
  | .or l r => l.literals ++ r.literals
  | .not e => e.literals
  | .isNull e => e.literals

def Printable (e : Expr) : Prop := ∀ v ∈ e.literals, v.Printable

/-- The token that an operand is printed as. -/
def operandToken : Expr → Token
  | .column name => .word name
  | .literal (.text s) => .quoted s
  | .literal (.int64 i) => .number (toString i.toInt)
  | e => .word e.display

def tokens : Expr → List Token
  | .compare l o r => l.tokens ++ .op o o.symbol :: r.tokens
  | .and l r => .openParen :: (l.tokens ++ .word "and" :: r.tokens) ++ [.closeParen]
  | .or l r => .openParen :: (l.tokens ++ .word "or" :: r.tokens) ++ [.closeParen]
  | .not e => .word "not" :: e.tokens
  | .isNull e => e.tokens ++ [.word "is", .word "null"]
  | e => [e.operandToken]

theorem Operand.tokens_eq (h : Operand e) : e.tokens = [e.operandToken] := by
  cases h <;> rfl

/-- The expression that a word makes of two others. -/
inductive Connects (l r : Expr) : String → Expr → Prop where
  | and : Connects l r "and" (.and l r)
  | or : Connects l r "or" (.or l r)

theorem Connects.toList_display (h : Connects l r word e) :
    e.display.toList =
      '(' :: (l.display.toList ++ ' ' :: (word.toList ++ ' ' :: r.display.toList)) ++ [')'] := by
  cases h <;> simp [display]

theorem Connects.tokens_eq (h : Connects l r word e) :
    e.tokens = .openParen :: (l.tokens ++ .word word :: r.tokens) ++ [.closeParen] := by
  cases h <;> rfl

/-! ## Scanning what is printed -/

theorem Operand.scans (h : Operand e) (hp : e.Printable) :
    Scans e.display.toList [e.operandToken] := by
  cases h with
  | column hname => exact Token.scans_word hname
  | literal v =>
    have hv : v.Printable := hp v List.mem_cons_self
    cases v with
    | null => exact Token.scans_word (by decide)
    | bool b => cases b <;> exact Token.scans_word (by decide)
    | int64 i => exact Token.scans_number (Token.isNumeral_toString i.toInt)
    | text s =>
      have htext : (display (.literal (.text s))).toList = '\'' :: (s.toList ++ ['\'']) := by
        simp [display, displayLiteral]
      rw [htext]
      exact Token.scans_quoted hv
    | int32 | float32 | float64 | bytes => cases hv

theorem scans_keyword {s : String} (h : s ∈ ["and", "or", "not", "is", "null"]) :
    Scans s.toList [.word s] := by
  simp only [List.mem_cons, List.not_mem_nil, or_false] at h
  rcases h with rfl | rfl | rfl | rfl | rfl <;> exact Token.scans_word (by decide)

theorem Connects.scans (h : Connects l r word e) (hl : Scans l.display.toList l.tokens)
    (hr : Scans r.display.toList r.tokens) : Scans e.display.toList e.tokens := by
  have hword : Scans word.toList [.word word] := by cases h <;> exact scans_keyword (by simp)
  rw [h.toList_display, h.tokens_eq]
  exact (hl.join (hword.join hr)).parens

theorem Printable.of_append (h : e.Printable) (heq : e.literals = l.literals ++ r.literals) :
    l.Printable ∧ r.Printable :=
  ⟨fun v hv => h v (heq ▸ List.mem_append_left _ hv),
    fun v hv => h v (heq ▸ List.mem_append_right _ hv)⟩

theorem Written.scans (h : Written e) (hp : e.Printable) : Scans e.display.toList e.tokens := by
  induction h with
  | operand h =>
    rw [h.1.tokens_eq]
    exact h.1.scans hp
  | @isNull e h =>
    have htext : (display (.isNull e)).toList =
        e.display.toList ++ ' ' :: ("is".toList ++ ' ' :: "null".toList) := by
      simp [display]
    rw [htext, tokens, h.1.tokens_eq]
    exact (h.1.scans hp).join ((scans_keyword (by simp)).join (scans_keyword (by simp)))
  | @compare l r hl op hr =>
    obtain ⟨hpl, hpr⟩ := hp.of_append rfl
    have htext : (display (.compare l op r)).toList =
        l.display.toList ++ ' ' :: (op.symbol.toList ++ ' ' :: r.display.toList) := by
      simp [display]
    rw [htext, tokens, hl.1.tokens_eq, hr.tokens_eq]
    exact (hl.1.scans hpl).join ((Token.scans_symbol op).join (hr.scans hpr))
  | @not e h ih =>
    have htext : (display (.not e)).toList = "not".toList ++ ' ' :: e.display.toList := by
      simp [display]
    rw [htext]
    exact (scans_keyword (by simp)).join (ih hp)
  | and hl hr ihl ihr =>
    obtain ⟨hpl, hpr⟩ := hp.of_append rfl
    exact Connects.and.scans (ihl hpl) (ihr hpr)
  | or hl hr ihl ihr =>
    obtain ⟨hpl, hpr⟩ := hp.of_append rfl
    exact Connects.or.scans (ihl hpl) (ihr hpr)

/-! ## Reading the tokens -/

theorem operand_number (i : Int64) :
    operand (.number (toString i.toInt) :: ts) = .ok (.literal (.int64 i), ts) := by
  have hread : Number.readSigned Number.int64Limit (toString i.toInt).toList = .ok i.toInt :=
    Number.readSigned_toString i.le_toInt (Int.le_of_lt_add_one i.toInt_lt)
  rw [operand, readNumber, hread]
  simp only [Except.map, Int64.ofInt_toInt]

theorem Operand.operand_eq (h : Operand e) (hp : e.Printable) :
    operand (e.operandToken :: ts) = .ok (e, ts) := by
  cases h with
  | column hname hword => simp [operandToken, operand, hword]
  | literal v =>
    have hv : v.Printable := hp v List.mem_cons_self
    cases v with
    | null => rfl
    | bool b => cases b <;> rfl
    | int64 i => exact operand_number i
    | text s => rfl
    | int32 | float32 | float64 | bytes => cases hv

theorem Leading.eat?_not (h : Leading e) (hp : e.Printable) :
    eat? "not" (e.operandToken :: ts) = none := by
  obtain ⟨hoperand, hname⟩ := h
  cases hoperand with
  | column => simp [eat?, operandToken, Token.isKeyword, hname _ rfl]
  | literal v =>
    have hv : v.Printable := hp v List.mem_cons_self
    cases v with
    | null => rfl
    | bool b => cases b <;> rfl
    | int64 i => rfl
    | text s => rfl
    | int32 | float32 | float64 | bytes => cases hv

theorem Leading.factor_eq (h : Leading e) (hp : e.Printable) {n : Nat} {e' : Expr}
    {ts' : List Token} (hpred : predicate e ts = .ok (e', ts')) :
    factor (n + 1) (e.operandToken :: ts) = .ok (e', ts') :=
  factor_eq_ok.mpr (.predicate (h.eat?_not hp) (h.1.operand_eq hp) hpred)

theorem ended_nil : Ended [] := ⟨rfl, nofun⟩

theorem ended_closeParen : Ended (.closeParen :: ts) := ⟨rfl, nofun⟩

theorem Connects.ended (h : Connects l r word e) : Ended (.word word :: ts) := by
  cases h <;> exact ⟨rfl, nofun⟩

theorem Connects.disjunction_eq (h : Connects l r word e) {n : Nat} {ts' ts'' : List Token}
    (hleft : factor (n + 1) ts = .ok (l, .word word :: ts'))
    (hright : factor n ts' = .ok (r, .closeParen :: ts'')) :
    disjunction (n + 3) ts = .ok (e, .closeParen :: ts'') := by
  cases h with
  | and =>
    have hmore : conjuncts (n + 1) l (.word "and" :: ts') = .ok (.and l r, .closeParen :: ts'') :=
      conjuncts_eq_ok.mpr (.more rfl hright (conjuncts_of_stop rfl))
    exact disjunction_eq_ok.mpr ⟨_, _, conjunction_eq_ok.mpr ⟨l, _, hleft, hmore⟩,
      disjuncts_of_stop rfl⟩
  | or =>
    have hone : conjunction (n + 2) ts = .ok (l, .word "or" :: ts') :=
      conjunction_eq_ok.mpr ⟨l, _, hleft, conjuncts_of_stop rfl⟩
    have hother : conjunction (n + 1) ts' = .ok (r, .closeParen :: ts'') :=
      conjunction_eq_ok.mpr ⟨r, _, hright, conjuncts_of_stop rfl⟩
    exact disjunction_eq_ok.mpr ⟨_, _, hone,
      disjuncts_eq_ok.mpr (.more rfl hother (disjuncts_of_stop rfl))⟩

/-- The tokens of an expression are read as one factor, with fuel for each of them. -/
def ReadsBack (e : Expr) : Prop :=
  ∀ ⦃n ts⦄, 4 * e.tokens.length ≤ n → Ended ts → factor n (e.tokens ++ ts) = .ok (e, ts)

theorem Connects.readsBack (h : Connects l r word e) (hl : l.ReadsBack) (hr : r.ReadsBack) :
    e.ReadsBack := by
  intro n ts hn _
  rw [h.tokens_eq] at hn ⊢
  have hn' : 4 * l.tokens.length + 4 * r.tokens.length + 12 ≤ n := by
    simp only [List.length_append, List.length_cons, List.length_nil] at hn
    omega
  obtain ⟨n, rfl⟩ : ∃ k, n = k + 4 := ⟨n - 4, by omega⟩
  have hleft : factor (n + 1) (l.tokens ++ .word word :: (r.tokens ++ .closeParen :: ts)) =
      .ok (l, .word word :: (r.tokens ++ .closeParen :: ts)) := hl (by omega) h.ended
  have hright : factor n (r.tokens ++ .closeParen :: ts) = .ok (r, .closeParen :: ts) :=
    hr (by omega) ended_closeParen
  simpa using factor_eq_ok.mpr (.parens (h.disjunction_eq hleft hright))

theorem Written.readsBack (h : Written e) (hp : e.Printable) : e.ReadsBack := by
  induction h with
  | operand h =>
    intro n ts hn hts
    rw [h.1.tokens_eq] at hn ⊢
    obtain ⟨n, rfl⟩ : ∃ k, n = k + 1 := ⟨n - 1, by simp at hn; omega⟩
    exact h.factor_eq hp (predicate_eq_ok.mpr (.bare hts.1 hts.2))
  | isNull h =>
    intro n ts hn _
    rw [tokens, h.1.tokens_eq] at hn ⊢
    obtain ⟨n, rfl⟩ : ∃ k, n = k + 1 := ⟨n - 1, by simp at hn; omega⟩
    exact h.factor_eq hp (predicate_eq_ok.mpr (.isNull rfl rfl rfl))
  | compare hl op hr =>
    intro n ts hn _
    obtain ⟨hpl, hpr⟩ := hp.of_append rfl
    rw [tokens, hl.1.tokens_eq, hr.tokens_eq] at hn ⊢
    obtain ⟨n, rfl⟩ : ∃ k, n = k + 1 := ⟨n - 1, by simp at hn; omega⟩
    exact hl.factor_eq hpl (predicate_eq_ok.mpr (.compare (hr.operand_eq hpr)))
  | not h ih =>
    intro n ts hn hts
    rw [tokens, List.length_cons] at hn
    obtain ⟨n, rfl⟩ : ∃ k, n = k + 1 := ⟨n - 1, by omega⟩
    exact factor_eq_ok.mpr (.not rfl (ih hp (by omega) hts))
  | and hl hr ihl ihr =>
    obtain ⟨hpl, hpr⟩ := hp.of_append rfl
    exact Connects.and.readsBack (ihl hpl) (ihr hpr)
  | or hl hr ihl ihr =>
    obtain ⟨hpl, hpr⟩ := hp.of_append rfl
    exact Connects.or.readsBack (ihl hpl) (ihr hpr)

theorem Written.read_display (h : Written e) (hp : e.Printable) : read e.display = .ok e := by
  have hfactor : factor (4 * e.tokens.length + 2) e.tokens = .ok (e, []) := by
    simpa using h.readsBack hp (Nat.le_add_right (4 * e.tokens.length) 2) ended_nil
  have hconj := conjunction_eq_ok.mpr ⟨e, [], hfactor, conjuncts_of_stop rfl⟩
  exact read_eq_ok.mpr ⟨e.tokens, (h.scans hp).scan,
    disjunction_eq_ok.mpr ⟨e, [], hconj, disjuncts_of_stop rfl⟩⟩

/-! ## Sort items -/

def Unindented (s : String) : Prop := ∃ c cs, s.toList = c :: cs ∧ Text.isBlank c = false

theorem unindented_append {s : String} (h : Unindented s) (s' : String) : Unindented (s ++ s') := by
  obtain ⟨c, cs, hs, hc⟩ := h
  exact ⟨c, cs ++ s'.toList, by rw [String.toList_append, hs, List.cons_append], hc⟩

theorem Operand.unindented (h : Operand e) (hp : e.Printable) : Unindented e.display := by
  cases h with
  | column hname =>
    obtain ⟨c, cs, hs, hc, _⟩ := hname
    exact ⟨c, cs, hs, Token.not_isBlank_of_startsWord hc⟩
  | literal v =>
    have hv : v.Printable := hp v List.mem_cons_self
    cases v with
    | null => exact ⟨'N', _, rfl, by decide⟩
    | bool b =>
      cases b with
      | false => exact ⟨'f', _, rfl, by decide⟩
      | true => exact ⟨'t', _, rfl, by decide⟩
    | int64 i =>
      obtain ⟨c, cs, hs, _, hc⟩ := Token.isNumeral_toString i.toInt
      refine ⟨c, cs, hs, ?_⟩
      rcases hc with hc | ⟨rfl, _⟩
      · exact Token.not_isBlank_of_startsWord (Token.startsWord_of_isDigit hc)
      · decide
    | text s => exact ⟨'\'', s.toList ++ ['\''], by simp [display, displayLiteral], by decide⟩
    | int32 | float32 | float64 | bytes => cases hv

theorem Written.unindented (h : Written e) (hp : e.Printable) : Unindented e.display := by
  cases h with
  | operand h => exact h.1.unindented hp
  | isNull h => exact unindented_append (h.1.unindented hp) _
  | @compare l r hl op hr =>
    have hl' := hl.1.unindented (hp.of_append (l := l) (r := r) rfl).1
    exact unindented_append (unindented_append (unindented_append (unindented_append hl' _) _) _) _
  | not h => exact ⟨'n', _, by simp [display]; rfl, by decide⟩
  | and hl hr => exact ⟨'(', _, by simp [display]; rfl, by decide⟩
  | or hl hr => exact ⟨'(', _, by simp [display]; rfl, by decide⟩

end Expr

namespace SortItem

theorem beforeEnding?_append {ending : String} (h : ending.toList.map Char.toLower = ending.toList)
    (cs : List Char) : beforeEnding? ending (cs ++ ending.toList) = some cs := by
  have hfront : (cs ++ ending.toList).length - ending.length = cs.length := by
    rw [List.length_append, String.length_toList, Nat.add_sub_cancel]
  rw [beforeEnding?, hfront, List.drop_left, List.take_left, if_pos h]

theorem beforeEnding?_desc_asc (cs : List Char) :
    beforeEnding? " desc" (cs ++ " asc".toList) = none := by
  rw [beforeEnding?, if_neg]
  rcases List.eq_nil_or_concat cs with rfl | ⟨body, c, rfl⟩
  · decide
  · have hfront : (body ++ [c] ++ " asc".toList).length - " desc".length = body.length := by
      have hlength : " desc".length = 5 := rfl
      simp [hlength]
    rw [List.concat_eq_append, hfront, List.append_assoc, List.drop_left]
    intro h
    -- the second characters differ
    cases congrArg (·[1]?) h

theorem splitDirection_display (cs : List Char) (direction : Direction) :
    splitDirection (cs ++ ' ' :: (directionWord direction).toList) = (cs, direction) := by
  cases direction with
  | ascending =>
    have hdesc : beforeEnding? " desc" (cs ++ ' ' :: "asc".toList) = none :=
      beforeEnding?_desc_asc cs
    have hasc : beforeEnding? " asc" (cs ++ ' ' :: "asc".toList) = some cs :=
      @beforeEnding?_append " asc" rfl cs
    simp only [splitDirection, directionWord, hdesc, hasc]
  | descending =>
    have hdesc : beforeEnding? " desc" (cs ++ ' ' :: "desc".toList) = some cs :=
      @beforeEnding?_append " desc" rfl cs
    simp only [splitDirection, directionWord, hdesc]

theorem getLast?_directionWord (cs : List Char) (direction : Direction) :
    (cs ++ (directionWord direction).toList).getLast? = some 'c' := by
  rw [List.getLast?_append]
  cases direction <;> rfl

theorem trimChars_display {i : SortItem} (h : Expr.Unindented i.expr.display) :
    Text.trimChars i.display.toList = i.display.toList := by
  obtain ⟨c, cs, hs, hc⟩ := h
  refine Text.trimChars_eq_self (fun d hd => ?_) fun d hd => ?_
  · simp only [display, String.toList_append, hs, List.cons_append, List.head?_cons] at hd
    cases hd
    exact hc
  · rw [display, String.toList_append, getLast?_directionWord] at hd
    cases hd
    decide

theorem read_display {i : SortItem} (h : i.expr.Written) (hp : i.expr.Printable) :
    read i.display = .ok i := by
  have htext : i.display.toList =
      i.expr.display.toList ++ ' ' :: (directionWord i.direction).toList := by
    simp [display]
  rw [read, trimChars_display (h.unindented hp), htext, splitDirection_display]
  simp only [String.ofList_toList, h.read_display hp, Except.map]

end SortItem

/-- Whatever text an expression was read from, it is read again from what it is printed as, and so
is a sort item over it. -/
theorem display_reads_back {text : String} {e : Expr} (h : Expr.read text = .ok e)
    (hp : e.Printable) :
    Expr.read e.display = .ok e ∧
      ∀ direction, SortItem.read (SortItem.display ⟨e, direction⟩) = .ok ⟨e, direction⟩ := by
  have hwritten := Expr.written_of_read h
  exact ⟨hwritten.read_display hp, fun direction => SortItem.read_display hwritten hp⟩

/-- Columns named like keywords, below a negated disjunction. -/
theorem display_reads_back_keywords :
    let text := "NOT (is is not null AND not and == -3 or \"say\" < or)"
    let e : Expr := .not (.or
      (.and (.not (.isNull (.column "is")))
        (.not (.compare (.column "and") .eq (.literal (.int64 (-3))))))
      (.compare (.literal (.text "say")) .lt (.column "or")))
    Expr.read text = .ok e ∧ e.Printable ∧ Expr.read e.display = .ok e ∧
      ∀ direction, SortItem.read (SortItem.display ⟨e, direction⟩) = .ok ⟨e, direction⟩ := by
  intro text e
  have h : Expr.read text = .ok e := by decide +kernel
  have hp : e.Printable := by simp [e, Expr.Printable, Expr.literals, Value.Printable]
  exact ⟨h, hp, display_reads_back h hp⟩

end QueryCluster
