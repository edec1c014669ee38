import QueryCluster.Expr.Parser
import QueryCluster.Proofs.Expr.Scanning

/-!
# What the rules of the grammar read

A rule that succeeds has gone one of a few ways, and it goes the same way when tokens that continue
no expression stand behind its own. What is read is built from operands, with comparisons and null
tests of nothing else.
-/
namespace QueryCluster.Expr

variable {n m : Nat} {k : String} {t : Token} {ts ts' rest : List Token} {e left : Expr}

/-! ## Keywords -/

theorem eat?_eq_some : eat? k ts = some ts' ↔ ∃ t, ts = t :: ts' ∧ t.isKeyword k = true := by
  cases ts with
  | nil => simp [eat?]
  | cons t ts =>
    simp only [eat?, Option.ite_none_right_eq_some, Option.some.injEq, List.cons.injEq]
    constructor
    · rintro ⟨hk, rfl⟩
      exact ⟨t, ⟨rfl, rfl⟩, hk⟩
    · rintro ⟨t, ⟨rfl, rfl⟩, hk⟩
      exact ⟨hk, rfl⟩

theorem isKeyword_eq_true : t.isKeyword k = true ↔ ∃ s, t = .word s ∧ Text.lowerAscii s = k := by
  cases t <;> simp [Token.isKeyword]

/-- One token is one keyword at most. -/
theorem eat?_eq_none_of_ne {k' : String} (h : eat? k ts = some ts') (hne : k ≠ k') :
    eat? k' ts = none := by
  obtain ⟨t, rfl, ht⟩ := eat?_eq_some.mp h
  obtain ⟨s, rfl, rfl⟩ := isKeyword_eq_true.mp ht
  simp [eat?, Token.isKeyword, hne]

theorem eat?_append (h : eat? k ts = some ts') : eat? k (ts ++ rest) = some (ts' ++ rest) := by
  obtain ⟨t, rfl, ht⟩ := eat?_eq_some.mp h
  exact eat?_eq_some.mpr ⟨t, rfl, ht⟩

theorem eat?_append_eq_none (h : eat? k ts = none) (hrest : ts = [] → eat? k rest = none) :
    eat? k (ts ++ rest) = none := by
  cases ts with
  | nil => exact hrest rfl
  | cons t ts => simpa [eat?] using h

/-! ## One step of a rule -/

inductive FactorReads (n : Nat) : List Token → Expr → List Token → Prop where
  | not {ts ts₁ ts' : List Token} {e : Expr} (hnot : eat? "not" ts = some ts₁)
      (h : factor n ts₁ = .ok (e, ts')) : FactorReads n ts (not e) ts'
  | parens {ts ts' : List Token} {e : Expr} (h : disjunction n ts = .ok (e, .closeParen :: ts')) :
      FactorReads n (.openParen :: ts) e ts'
  | predicate {ts ts₁ ts' : List Token} {left e : Expr} (hnot : eat? "not" ts = none)
      (hleft : operand ts = .ok (left, ts₁)) (h : predicate left ts₁ = .ok (e, ts')) :
      FactorReads n ts e ts'

inductive PredicateReads (left : Expr) : List Token → Expr → List Token → Prop where
  | isNotNull {ts ts₁ ts₂ ts' : List Token} (his : eat? "is" ts = some ts₁)
      (hnot : eat? "not" ts₁ = some ts₂) (hnull : eat? "null" ts₂ = some ts') :
      PredicateReads left ts (not (isNull left)) ts'
  | isNull {ts ts₁ ts' : List Token} (his : eat? "is" ts = some ts₁)
      (hnot : eat? "not" ts₁ = none) (hnull : eat? "null" ts₁ = some ts') :
      PredicateReads left ts (isNull left) ts'
  | compare {ts ts' : List Token} {o : Comparison} {symbol : String} {right : Expr}
      (h : operand ts = .ok (right, ts')) :
      PredicateReads left (.op o symbol :: ts) (compare left o right) ts'
  | bare {ts : List Token} (his : eat? "is" ts = none)
      (hop : ∀ o symbol ts', ts ≠ .op o symbol :: ts') : PredicateReads left ts left ts

section Joined

variable {join : Expr → Expr → Expr} {part : List Token → Parsed}
  {next : Expr → List Token → Parsed}

/-- One step of the rules that join parts, as long as their word stands between these. -/
def joined (k : String) (join : Expr → Expr → Expr) (part : List Token → Parsed)
    (next : Expr → List Token → Parsed) (left : Expr) (ts : List Token) : Parsed :=
  match eat? k ts with
  | none => .ok (left, ts)
  | some ts => match part ts with
    | .ok (right, ts) => next (join left right) ts
    | .error fault => .error fault

inductive JoinsRead (k : String) (join : Expr → Expr → Expr) (part : List Token → Parsed)
    (next : Expr → List Token → Parsed) (left : Expr) : List Token → Expr → List Token → Prop where
  | stop {ts : List Token} (hk : eat? k ts = none) : JoinsRead k join part next left ts left ts
  | more {ts ts₁ ts₂ ts' : List Token} {right e : Expr} (hk : eat? k ts = some ts₁)
      (hright : part ts₁ = .ok (right, ts₂)) (h : next (join left right) ts₂ = .ok (e, ts')) :
      JoinsRead k join part next left ts e ts'

theorem joined_eq_ok :
    joined k join part next left ts = .ok (e, ts') ↔ JoinsRead k join part next left ts e ts' := by
  unfold joined
  constructor
  · intro h
    rcases hk : eat? k ts with _ | ts₁
    · simp only [hk, Except.ok.injEq, Prod.mk.injEq] at h
      obtain ⟨rfl, rfl⟩ := h
      exact .stop hk
    · rcases hright : part ts₁ with fault | ⟨right, ts₂⟩
      · simp [hk, hright] at h
      · simp only [hk, hright] at h
        exact .more hk hright h
  · rintro (hk | ⟨hk, hright, h⟩)
    · simp [hk]
    · simp [hk, hright, h]

end Joined

theorem disjunction_eq_ok : disjunction (n + 1) ts = .ok (e, ts') ↔
    ∃ left ts₁, conjunction n ts = .ok (left, ts₁) ∧ disjuncts n left ts₁ = .ok (e, ts') := by
  rw [disjunction]
  rcases conjunction n ts with fault | ⟨left, ts₁⟩ <;> simp

theorem conjunction_eq_ok : conjunction (n + 1) ts = .ok (e, ts') ↔
    ∃ left ts₁, factor n ts = .ok (left, ts₁) ∧ conjuncts n left ts₁ = .ok (e, ts') := by
  rw [conjunction]
  rcases factor n ts with fault | ⟨left, ts₁⟩ <;> simp

theorem disjuncts_eq_ok : disjuncts (n + 1) left ts = .ok (e, ts') ↔
    JoinsRead "or" or (conjunction n) (disjuncts n) left ts e ts' := by
  rw [disjuncts]
  exact joined_eq_ok

theorem conjuncts_eq_ok : conjuncts (n + 1) left ts = .ok (e, ts') ↔
    JoinsRead "and" and (factor n) (conjuncts n) left ts e ts' := by
  rw [conjuncts]
  exact joined_eq_ok

theorem operand_openParen : operand (.openParen :: ts) ≠ .ok (e, ts') := nofun

theorem factor_eq_ok : factor (n + 1) ts = .ok (e, ts') ↔ FactorReads n ts e ts' := by
  unfold factor
  constructor
  · intro h
    rcases hnot : eat? "not" ts with _ | ts₁
    · simp only [hnot] at h
      split at h
      · next ts₁ =>
        split at h <;> cases h
        next hinner => exact .parens hinner
      · split at h
        · next hleft => exact .predicate hnot hleft h
        · cases h
    · simp only [hnot] at h
      obtain ⟨⟨inner, ts₂⟩, hinner, heq⟩ := map_ok h
      cases heq
      exact .not hnot hinner
  · rintro (⟨hnot, h⟩ | h | ⟨hnot, hleft, h⟩)
    · simp [hnot, h, Except.map]
    · simp [eat?, Token.isKeyword, h]
    · simp only [hnot]
      split
      · exact absurd hleft operand_openParen
      · simp [hleft, h]

theorem predicate_eq_ok : predicate left ts = .ok (e, ts') ↔ PredicateReads left ts e ts' := by
  unfold predicate
  constructor
  · intro h
    rcases his : eat? "is" ts with _ | ts₁
    · simp only [his] at h
      split at h
      · obtain ⟨⟨right, ts₂⟩, hright, heq⟩ := map_ok h
        cases heq
        exact .compare hright
      · next hop =>
        cases h
        exact .bare his hop
    · simp only [his] at h
      rcases hnot : eat? "not" ts₁ with _ | ts₂
      · simp only [hnot] at h
        split at h <;> cases h
        next hnull => exact .isNull his hnot hnull
      · simp only [hnot] at h
        split at h <;> cases h
        next hnull => exact .isNotNull his hnot hnull
  · rintro (⟨his, hnot, hnull⟩ | ⟨his, hnot, hnull⟩ | h | ⟨his, hop⟩)
    · simp [his, hnot, hnull]
    · simp [his, hnot, hnull]
    · simp [eat?, Token.isKeyword, h, Except.map]
    · simp only [his]

/-! ## What stands behind an expression -/

/-- The tokens continue no comparison and no null test. -/
def Ended (ts : List Token) : Prop := eat? "is" ts = none ∧ ∀ o symbol ts', ts ≠ .op o symbol :: ts'

/-- The tokens continue no expression at all. -/
def Inert (ts : List Token) : Prop := Ended ts ∧ eat? "and" ts = none ∧ eat? "or" ts = none

theorem disjuncts_of_stop (h : eat? "or" ts = none) : disjuncts n left ts = .ok (left, ts) := by
  cases n with
  | zero => rfl
  | succ n => exact disjuncts_eq_ok.mpr (.stop h)

theorem conjuncts_of_stop (h : eat? "and" ts = none) : conjuncts n left ts = .ok (left, ts) := by
  cases n with
  | zero => rfl
  | succ n => exact conjuncts_eq_ok.mpr (.stop h)

/-- What a list of disjuncts stops at, each of them has stopped at too. -/
theorem eat?_and_of_disjuncts (h : disjuncts n left ts = .ok (e, ts'))
    (hand : eat? "and" ts' = none) : eat? "and" ts = none := by
  cases n with
  | zero =>
    cases h
    exact hand
  | succ n =>
    cases disjuncts_eq_ok.mp h with
    | stop => exact hand
    | more hor => exact eat?_eq_none_of_ne hor (by decide)

theorem operand_append (h : operand ts = .ok (e, ts')) :
    operand (ts ++ rest) = .ok (e, ts' ++ rest) := by
  cases ts with
  | nil => cases h
  | cons t ts =>
    cases t with
    | word s | quoted s =>
      cases h
      rfl
    | number s =>
      obtain ⟨v, hv, heq⟩ := map_ok h
      cases heq
      simp [operand, hv, Except.map]
    | op | openParen | closeParen => cases h

theorem ne_nil_of_operand (h : operand ts = .ok (e, ts')) : ts ≠ [] := by
  rintro rfl
  cases h

theorem ne_nil_of_eat? (h : eat? k ts = some ts') : ts ≠ [] := by
  rintro rfl
  cases h

theorem predicate_append (h : predicate left ts = .ok (e, ts')) (hrest : ts' = [] → Ended rest) :
    predicate left (ts ++ rest) = .ok (e, ts' ++ rest) := by
  refine predicate_eq_ok.mpr ?_
  cases predicate_eq_ok.mp h with
  | isNotNull his hnot hnull =>
    exact .isNotNull (eat?_append his) (eat?_append hnot) (eat?_append hnull)
  | isNull his hnot hnull =>
    exact .isNull (eat?_append his)
      (eat?_append_eq_none hnot fun h => absurd h (ne_nil_of_eat? hnull)) (eat?_append hnull)
  | compare h => exact .compare (operand_append h)
  | bare his hop =>
    refine .bare (eat?_append_eq_none his fun h => (hrest h).1) ?_
    cases ts with
    | nil => exact (hrest rfl).2
    | cons t ts =>
      intro o symbol ts₁ heq
      cases heq
      exact hop _ _ _ rfl

/-- What the rules read with some fuel they also read with more, and in front of more tokens. -/
structure Extends (rest : List Token) (n : Nat) : Prop where
  disjunction {ts ts' : List Token} {e : Expr} (h : Expr.disjunction n ts = .ok (e, ts'))
    (hand : eat? "and" ts' = none) (hor : eat? "or" ts' = none) {m : Nat} (hm : n ≤ m) :
    Expr.disjunction m (ts ++ rest) = .ok (e, ts' ++ rest)
  disjuncts {ts ts' : List Token} {left e : Expr} (h : Expr.disjuncts n left ts = .ok (e, ts'))
    (hand : eat? "and" ts' = none) (hor : eat? "or" ts' = none) {m : Nat} (hm : n ≤ m) :
    Expr.disjuncts m left (ts ++ rest) = .ok (e, ts' ++ rest)
  conjunction {ts ts' : List Token} {e : Expr} (h : Expr.conjunction n ts = .ok (e, ts'))
    (hand : eat? "and" ts' = none) {m : Nat} (hm : n ≤ m) :
    Expr.conjunction m (ts ++ rest) = .ok (e, ts' ++ rest)
  conjuncts {ts ts' : List Token} {left e : Expr} (h : Expr.conjuncts n left ts = .ok (e, ts'))
    (hand : eat? "and" ts' = none) {m : Nat} (hm : n ≤ m) :
    Expr.conjuncts m left (ts ++ rest) = .ok (e, ts' ++ rest)
  factor {ts ts' : List Token} {e : Expr} (h : Expr.factor n ts = .ok (e, ts')) {m : Nat}
    (hm : n ≤ m) : Expr.factor m (ts ++ rest) = .ok (e, ts' ++ rest)

/-- Without fuel only the rules that may read nothing read anything. -/
theorem extends_zero (hrest : Inert rest) : Extends rest 0 := by
  obtain ⟨_, hand', hor'⟩ := hrest
  constructor
  case disjunction =>
    intro ts ts' e h
    cases h
  case disjuncts =>
    intro ts ts' left e h hand hor m _
    cases h
    exact disjuncts_of_stop (eat?_append_eq_none hor fun _ => hor')
  case conjunction =>
    intro ts ts' e h
    cases h
  case conjuncts =>
    intro ts ts' left e h hand m _
    cases h
    exact conjuncts_of_stop (eat?_append_eq_none hand fun _ => hand')
  case factor =>
    intro ts ts' e h
    cases h

/-- One step of each rule, after which the others go on with less fuel. -/
theorem Extends.succ (hrest : Inert rest) (ih : Extends rest n) : Extends rest (n + 1) := by
  obtain ⟨hended, hand', hor'⟩ := hrest
  constructor
  case disjunction =>
    intro ts ts' e h hand hor m hm
    obtain ⟨m, rfl⟩ : ∃ k, m = k + 1 := ⟨m - 1, by omega⟩
    obtain ⟨left, ts₁, hleft, h⟩ := disjunction_eq_ok.mp h
    exact disjunction_eq_ok.mpr ⟨left, ts₁ ++ rest,
      ih.conjunction hleft (eat?_and_of_disjuncts h hand) (by omega),
      ih.disjuncts h hand hor (by omega)⟩
  case disjuncts =>
    intro ts ts' left e h hand hor m hm
    obtain ⟨m, rfl⟩ : ∃ k, m = k + 1 := ⟨m - 1, by omega⟩
    cases disjuncts_eq_ok.mp h with
    | stop => exact disjuncts_of_stop (eat?_append_eq_none hor fun _ => hor')
    | more hmore hright h =>
      exact disjuncts_eq_ok.mpr (.more (eat?_append hmore)
        (ih.conjunction hright (eat?_and_of_disjuncts h hand) (by omega))
        (ih.disjuncts h hand hor (by omega)))
  case conjunction =>
    intro ts ts' e h hand m hm
    obtain ⟨m, rfl⟩ : ∃ k, m = k + 1 := ⟨m - 1, by omega⟩
    obtain ⟨left, ts₁, hleft, h⟩ := conjunction_eq_ok.mp h
    exact conjunction_eq_ok.mpr ⟨left, ts₁ ++ rest, ih.factor hleft (by omega),
      ih.conjuncts h hand (by omega)⟩
  case conjuncts =>
    intro ts ts' left e h hand m hm
    obtain ⟨m, rfl⟩ : ∃ k, m = k + 1 := ⟨m - 1, by omega⟩
    cases conjuncts_eq_ok.mp h with
    | stop => exact conjuncts_of_stop (eat?_append_eq_none hand fun _ => hand')
    | more hmore hright h =>
      exact conjuncts_eq_ok.mpr (.more (eat?_append hmore) (ih.factor hright (by omega))
        (ih.conjuncts h hand (by omega)))
  case factor =>
    intro ts ts' e h m hm
    obtain ⟨m, rfl⟩ : ∃ k, m = k + 1 := ⟨m - 1, by omega⟩
    refine factor_eq_ok.mpr ?_
    cases factor_eq_ok.mp h with
    | not hnot h => exact .not (eat?_append hnot) (ih.factor h (by omega))
    | parens h => exact .parens (ih.disjunction h rfl rfl (by omega))
    | predicate hnot hleft h =>
      exact .predicate
        (eat?_append_eq_none hnot fun hnil => absurd hnil (ne_nil_of_operand hleft))
        (operand_append hleft) (predicate_append h fun _ => hended)

theorem extends_inert (hrest : Inert rest) (n : Nat) : Extends rest n := by
  induction n with
  | zero => exact extends_zero hrest
  | succ n ih => exact ih.succ hrest

/-! ## What is read -/

/-- What one token is read as. -/
inductive Operand : Expr → Prop where
  | column {name : String} (hname : Token.IsName name) (hword : ofWord name = .column name) :
      Operand (.column name)
  | literal (v : Value) : Operand (.literal v)

/-- An operand that may begin a factor. -/
def Leading (e : Expr) : Prop :=
  Operand e ∧ ∀ name, e = .column name → Text.lowerAscii name ≠ "not"

/-- The expressions that are read. -/
inductive Written : Expr → Prop where
  | operand {e : Expr} (h : Leading e) : Written e
  | isNull {e : Expr} (h : Leading e) : Written (isNull e)
  | compare {l r : Expr} (hl : Leading l) (op : Comparison) (hr : Operand r) :
      Written (compare l op r)
  | not {e : Expr} (h : Written e) : Written (not e)
  | and {l r : Expr} (hl : Written l) (hr : Written r) : Written (and l r)
  | or {l r : Expr} (hl : Written l) (hr : Written r) : Written (or l r)

/-- Words among the tokens are names. -/
def Named (ts : List Token) : Prop := ∀ s, Token.word s ∈ ts → Token.IsName s

theorem Named.of_suffix (h : Named ts) (hsuffix : ts' <:+ ts) : Named ts' :=
  fun s hs => h s (hsuffix.mem hs)

theorem Named.eat (h : Named ts) (heat : eat? k ts = some ts') : Named ts' := by
  obtain ⟨t, rfl, _⟩ := eat?_eq_some.mp heat
  exact h.of_suffix (List.suffix_cons t ts')

/-- A rule that reads written expressions from tokens whose words are names. -/
def Forms (good : Expr → Prop) (rule : List Token → Parsed) : Prop :=
  ∀ ⦃ts e ts'⦄, Named ts → rule ts = .ok (e, ts') → good e ∧ Named ts'

theorem ofWord_cases (s : String) : (∃ v, ofWord s = .literal v) ∨ ofWord s = .column s := by
  unfold ofWord
  split
  · exact .inl ⟨_, rfl⟩
  · exact .inl ⟨_, rfl⟩
  · exact .inl ⟨_, rfl⟩
  · exact .inr rfl

theorem forms_operand : Forms Operand operand := by
  intro ts e ts' hts h
  cases ts with
  | nil => cases h
  | cons t ts =>
    have hrest : Named ts := hts.of_suffix (List.suffix_cons t ts)
    cases t with
    | word s =>
      cases h
      refine ⟨?_, hrest⟩
      rcases ofWord_cases s with ⟨v, hv⟩ | hs
      · rw [hv]
        exact .literal v
      · rw [hs]
        exact .column (hts s List.mem_cons_self) hs
    | quoted s =>
      cases h
      exact ⟨.literal _, hrest⟩
    | number s =>
      obtain ⟨v, _, heq⟩ := map_ok h
      cases heq
      exact ⟨.literal v, hrest⟩
    | op | openParen | closeParen => cases h

theorem operand_eq_column {name : String} (h : operand ts = .ok (.column name, ts')) :
    ts = .word name :: ts' := by
  cases ts with
  | nil => cases h
  | cons t ts =>
    cases t with
    | word s =>
      simp only [operand, Except.ok.injEq, Prod.mk.injEq] at h
      obtain ⟨hs, rfl⟩ := h
      rcases ofWord_cases s with ⟨v, hv⟩ | hs'
      · simp [hv] at hs
      · simp_all
    | number s =>
      obtain ⟨v, _, heq⟩ := map_ok h
      cases heq
    | quoted | op | openParen | closeParen => cases h

theorem leading_of_operand (hts : Named ts) (hnot : eat? "not" ts = none)
    (h : operand ts = .ok (e, ts')) : Leading e := by
  refine ⟨(forms_operand hts h).1, ?_⟩
  rintro name rfl hname
  rw [operand_eq_column h] at hnot
  simp [eat?, Token.isKeyword, hname] at hnot

theorem forms_predicate (hleft : Leading left) : Forms Written (predicate left) := by
  intro ts e ts' hts h
  cases predicate_eq_ok.mp h with
  | isNotNull his hnot hnull => exact ⟨.not (.isNull hleft), ((hts.eat his).eat hnot).eat hnull⟩
  | isNull his hnot hnull => exact ⟨.isNull hleft, (hts.eat his).eat hnull⟩
  | compare h =>
    obtain ⟨hright, hrest⟩ := forms_operand (hts.of_suffix (List.suffix_cons _ _)) h
    exact ⟨.compare hleft _ hright, hrest⟩
  | bare => exact ⟨.operand hleft, hts⟩

structure FormsAll (n : Nat) : Prop where
  disjunction : Forms Written (Expr.disjunction n)
  disjuncts {left : Expr} (hleft : left.Written) : Forms Written (Expr.disjuncts n left)
  conjunction : Forms Written (Expr.conjunction n)
  conjuncts {left : Expr} (hleft : left.Written) : Forms Written (Expr.conjuncts n left)
  factor : Forms Written (Expr.factor n)

/-- Parts that are written make a written whole if what joins them does. -/
theorem JoinsRead.forms {join : Expr → Expr → Expr} {part : List Token → Parsed}
    {next : Expr → List Token → Parsed} (h : JoinsRead k join part next left ts e ts')
    (hjoin : ∀ {l r : Expr}, Written l → Written r → Written (join l r)) (hpart : Forms Written part)
    (hnext : ∀ {left : Expr}, Written left → Forms Written (next left)) (hleft : Written left)
    (hts : Named ts) : Written e ∧ Named ts' := by
  cases h with
  | stop => exact ⟨hleft, hts⟩
  | more hk hright h =>
    obtain ⟨hright, hts⟩ := hpart (hts.eat hk) hright
    exact hnext (hjoin hleft hright) hts h

theorem formsAll_zero : FormsAll 0 := by
  constructor
  case disjunction =>
    intro ts e ts' _ h
    cases h
  case disjuncts =>
    intro left hleft ts e ts' hts h
    cases h
    exact ⟨hleft, hts⟩
  case conjunction =>
    intro ts e ts' _ h
    cases h
  case conjuncts =>
    intro left hleft ts e ts' hts h
    cases h
    exact ⟨hleft, hts⟩
  case factor =>
    intro ts e ts' _ h
    cases h

theorem FormsAll.succ (ih : FormsAll n) : FormsAll (n + 1) := by
  constructor
  case disjunction =>
    intro ts e ts' hts h
    obtain ⟨left, ts₁, hleft, h⟩ := disjunction_eq_ok.mp h
    obtain ⟨hleft, hts⟩ := ih.conjunction hts hleft
    exact ih.disjuncts hleft hts h
  case disjuncts =>
    intro left hleft ts e ts' hts h
    exact (disjuncts_eq_ok.mp h).forms .or ih.conjunction ih.disjuncts hleft hts
  case conjunction =>
    intro ts e ts' hts h
    obtain ⟨left, ts₁, hleft, h⟩ := conjunction_eq_ok.mp h
    obtain ⟨hleft, hts⟩ := ih.factor hts hleft
    exact ih.conjuncts hleft hts h
  case conjuncts =>
    intro left hleft ts e ts' hts h
    exact (conjuncts_eq_ok.mp h).forms .and ih.factor ih.conjuncts hleft hts
  case factor =>
    intro ts e ts' hts h
    cases factor_eq_ok.mp h with
    | not hnot h =>
      obtain ⟨hinner, hts⟩ := ih.factor (hts.eat hnot) h
      exact ⟨.not hinner, hts⟩
    | parens h =>
      obtain ⟨hinner, hts⟩ := ih.disjunction (hts.of_suffix (List.suffix_cons _ _)) h
      exact ⟨hinner, hts.of_suffix (List.suffix_cons _ _)⟩
    | predicate hnot hleft h =>
      exact forms_predicate (leading_of_operand hts hnot hleft) (forms_operand hts hleft).2 h

theorem formsAll (n : Nat) : FormsAll n := by
  induction n with
  | zero => exact formsAll_zero
  | succ n ih => exact ih.succ

theorem read_eq_ok {text : String} : read text = .ok e ↔ ∃ ts, Token.scan text = .ok ts ∧
    disjunction (4 * ts.length + 4) ts = .ok (e, []) := by
  rw [read]
  rcases hscan : Token.scan text with fault | ts
  · simp
  · rcases hd : disjunction (4 * ts.length + 4) ts with fault | ⟨e', ts'⟩
    · simp [hd]
    · cases ts' with
      | nil => simp [hd]
      | cons t ts' => simp [hd]

theorem written_of_read {text : String} (h : read text = .ok e) : Written e := by
  obtain ⟨ts, hscan, h⟩ := read_eq_ok.mp h
  exact ((formsAll _).disjunction (fun s => Token.isName_of_scanFrom hscan) h).1

end QueryCluster.Expr
