import Mathlib.Data.List.TakeWhile
import QueryCluster.Expr.Token
import QueryCluster.Proofs.Outcome

/-!
# Tokens and what stands behind them

A token that is not quoted ends in front of a space or a closing parenthesis. Texts that are joined
by spaces therefore have the tokens of their parts, and a text that is cut at a space has the tokens
of its two parts, unless the cut goes through a quoted text.
-/
namespace QueryCluster

namespace Text

/-- The code points of the blank characters. -/
def blanks : List Nat :=
  List.range' 9 5 ++ [0x20, 0x85, 0xa0, 0x1680] ++ List.range' 0x2000 11 ++
    [0x2028, 0x2029, 0x202f, 0x205f, 0x3000]

theorem mem_blanks {c : Char} (h : isBlank c = true) : c.toNat ∈ blanks := by
  simp only [isBlank, Bool.or_eq_true, Bool.and_eq_true, decide_eq_true_eq, beq_iff_eq] at h
  simp only [blanks, List.mem_append, List.mem_range'_1, List.mem_cons, List.not_mem_nil, or_false]
  omega

theorem not_isWordChar_of_isBlank {c : Char} (h : isBlank c = true) : isWordChar c = false := by
  have hblanks : ∀ n ∈ blanks, isWordChar (Char.ofNat n) = false := by decide +kernel
  simpa using hblanks _ (mem_blanks h)

theorem dropWhile_isBlank {cs : List Char} (h : ∀ c ∈ cs.head?, isBlank c = false) :
    cs.dropWhile isBlank = cs := by
  cases cs with
  | nil => rfl
  | cons c cs => rw [List.dropWhile_cons_of_neg (by simp [h c rfl])]

/-- Trimming takes nothing from a text that neither begins nor ends with a blank. -/
theorem trimChars_eq_self {cs : List Char} (hfirst : ∀ c ∈ cs.head?, isBlank c = false)
    (hlast : ∀ c ∈ cs.getLast?, isBlank c = false) : trimChars cs = cs := by
  rw [trimChars, trimStart, dropWhile_isBlank hfirst, trimEnd,
    dropWhile_isBlank (by simpa using hlast), List.reverse_reverse]

end Text

namespace Token

variable {text : String} {c : Char} {cs ds body rest : List Char} {t : Token} {ts us : List Token}

theorem not_isBlank_of_startsWord (h : startsWord c = true) : Text.isBlank c = false := by
  rcases hc : Text.isBlank c with _ | _
  · rfl
  · rw [startsWord, Text.not_isWordChar_of_isBlank hc] at h
    obtain rfl : c = '_' := by simpa using h
    exact absurd hc (by decide)

/-! ## The first token -/

theorem scanFrom_space : scanFrom text (' ' :: cs) = scanFrom text cs := by
  rw [scanFrom, if_pos (by decide)]

theorem scanFrom_token (body : List Char) (hc : Text.isBlank c = false)
    (h : lexeme text c (body ++ rest) = .ok (t, body.length)) :
    scanFrom text (c :: (body ++ rest)) = (scanFrom text rest).map (t :: ·) := by
  rw [scanFrom, if_neg (by simp [hc]), h]
  simp only [List.drop_left]

theorem lexeme_quote {q : Char} (hq : q = '\'' ∨ q = '"') :
    lexeme text q cs =
      if (cs.takeWhile (· ≠ q)).length < cs.length then
        .ok (quoted (String.ofList (cs.takeWhile (· ≠ q))), (cs.takeWhile (· ≠ q)).length + 1)
      else .error (.unterminated text) := by
  rcases hq with rfl | rfl <;> rfl

theorem lexeme_operator (h : c = '=' ∨ c = '!' ∨ c = '<' ∨ c = '>') :
    lexeme text c cs = operator text c cs := by
  rcases h with rfl | rfl | rfl | rfl <;> rfl

/-- A character that may begin a number or a word. -/
def Ordinary (c : Char) : Prop :=
  c ≠ '(' ∧ c ≠ ')' ∧ ¬ (c = '\'' ∨ c = '"') ∧ ¬ (c = '=' ∨ c = '!' ∨ c = '<' ∨ c = '>')

theorem character_cases (c : Char) :
    c = '(' ∨ c = ')' ∨ (c = '\'' ∨ c = '"') ∨ (c = '=' ∨ c = '!' ∨ c = '<' ∨ c = '>') ∨
      Ordinary c := by
  unfold Ordinary
  tauto

theorem lexeme_ordinary (h : Ordinary c) :
    lexeme text c cs =
      if startsNumber c cs then
        .ok (number (String.ofList (c :: cs.takeWhile inNumber)), (cs.takeWhile inNumber).length)
      else if startsWord c then
        .ok (word (String.ofList (c :: cs.takeWhile inWord)), (cs.takeWhile inWord).length)
      else .error (.badCharacter c text) := by
  obtain ⟨hopen, hclose, hquote, hop⟩ := h
  rw [lexeme, if_neg hopen, if_neg hclose, if_neg hquote, if_neg hop]

theorem ordinary_of_startsWord (h : startsWord c = true) : Ordinary c := by
  refine ⟨?_, ?_, ?_, ?_⟩
  · rintro rfl
    exact absurd h (by decide)
  · rintro rfl
    exact absurd h (by decide)
  · rintro (rfl | rfl) <;> exact absurd h (by decide)
  · rintro (rfl | rfl | rfl | rfl) <;> exact absurd h (by decide)

theorem startsWord_of_isDigit (h : c.isDigit = true) : startsWord c = true := by
  have hlt : c.toNat < 128 := by
    simp only [Char.isDigit, Bool.and_eq_true, decide_eq_true_eq, UInt32.le_iff_toNat_le] at h
    exact Nat.lt_of_le_of_lt h.2 (by decide)
  simp [startsWord, Text.isWordChar_ascii hlt, Char.isAlphanum, h]

/-! ## Texts and their tokens -/

/-- No token but a quoted one goes on into such a text. -/
def Apart (rest : List Char) : Prop := ∀ d ∈ rest.head?, d = ' ' ∨ d = ')'

theorem apart_nil : Apart [] := nofun

theorem apart_space : Apart (' ' :: cs) := by simp [Apart]

theorem apart_close : Apart (')' :: cs) := by simp [Apart]

theorem takeWhile_apart {p : Char → Bool} (hbody : ∀ d ∈ body, p d = true)
    (hspace : p ' ' = false) (hclose : p ')' = false) (hrest : Apart rest) :
    (body ++ rest).takeWhile p = body := by
  rw [List.takeWhile_append_of_pos hbody]
  cases rest with
  | nil => simp
  | cons d rest =>
    rcases hrest d rfl with rfl | rfl
    · simp [hspace]
    · simp [hclose]

/-- Whatever token ends behind it, a text has these tokens. -/
def Scans (cs : List Char) (ts : List Token) : Prop :=
  ∀ text rest, Apart rest → scanFrom text (cs ++ rest) = (scanFrom text rest).map (ts ++ ·)

namespace Scans

theorem single (hc : Text.isBlank c = false)
    (h : ∀ text rest, Apart rest → lexeme text c (body ++ rest) = .ok (t, body.length)) :
    Scans (c :: body) [t] :=
  fun text rest hrest => scanFrom_token body hc (h text rest hrest)

theorem join (h : Scans cs ts) (h' : Scans ds us) : Scans (cs ++ ' ' :: ds) (ts ++ us) := by
  intro text rest hrest
  rw [List.append_assoc, List.cons_append, h text _ apart_space, scanFrom_space,
    h' text rest hrest]
  cases scanFrom text rest with
  | error fault => rfl
  | ok vs => simp [Except.map]

theorem parens (h : Scans cs ts) :
    Scans ('(' :: cs ++ [')']) (openParen :: ts ++ [closeParen]) := by
  intro text rest _
  have hopen : scanFrom text ('(' :: (cs ++ ')' :: rest)) =
      (scanFrom text (cs ++ ')' :: rest)).map (openParen :: ·) :=
    scanFrom_token [] (by decide) rfl
  have hclose : scanFrom text (')' :: rest) = (scanFrom text rest).map (closeParen :: ·) :=
    scanFrom_token [] (by decide) rfl
  rw [List.append_assoc, List.cons_append, List.singleton_append, hopen, h text _ apart_close,
    hclose]
  cases scanFrom text rest with
  | error fault => rfl
  | ok vs => simp [Except.map]

theorem scan {s : String} (h : Scans s.toList ts) : scan s = .ok ts := by
  have := h s [] apart_nil
  rw [List.append_nil, scanFrom] at this
  simpa [Except.map, Token.scan] using this

end Scans

/-- A text that is scanned as one word. -/
def IsName (s : String) : Prop :=
  ∃ c body, s.toList = c :: body ∧ startsWord c = true ∧ c.isDigit = false ∧
    ∀ d ∈ body, inWord d = true

theorem isName_iff {s : String} : IsName s ↔
    (s.toList.head?.any fun c => startsWord c && !c.isDigit) = true ∧
      s.toList.tail.all inWord = true := by
  cases hs : s.toList <;> simp [IsName, hs, and_assoc]

instance (s : String) : Decidable (IsName s) := decidable_of_iff _ isName_iff.symm

/-- A text that is scanned as one number. -/
def IsNumeral (s : String) : Prop :=
  ∃ c body, s.toList = c :: body ∧ (∀ d ∈ body, inNumber d = true) ∧
    (c.isDigit = true ∨ c = '-' ∧ ∃ d tail, body = d :: tail ∧ d.isDigit = true)

theorem scans_word {s : String} (h : IsName s) : Scans s.toList [word s] := by
  obtain ⟨c, body, hs, hc, hdigit, hbody⟩ := h
  rw [hs]
  refine .single (not_isBlank_of_startsWord hc) fun text rest hrest => ?_
  have hnumber : startsNumber c (body ++ rest) = false := by
    have hminus : c ≠ '-' := by
      rintro rfl
      exact absurd hc (by decide)
    simp [startsNumber, hdigit, hminus]
  rw [lexeme_ordinary (ordinary_of_startsWord hc), hnumber, if_neg (by simp), if_pos hc,
    takeWhile_apart hbody (by decide) (by decide) hrest, ← hs, String.ofList_toList]

theorem scans_number {s : String} (h : IsNumeral s) : Scans s.toList [number s] := by
  obtain ⟨c, body, hs, hbody, hc⟩ := h
  have hkind : Text.isBlank c = false ∧ Ordinary c ∧
      ∀ rest, startsNumber c (body ++ rest) = true := by
    rcases hc with hc | ⟨rfl, d, tail, rfl, hd⟩
    · have hword := startsWord_of_isDigit hc
      exact ⟨not_isBlank_of_startsWord hword, ordinary_of_startsWord hword,
        fun rest => by simp [startsNumber, hc]⟩
    · exact ⟨by decide, by simp [Ordinary], fun rest => by simp [startsNumber, hd]⟩
  rw [hs]
  refine .single hkind.1 fun text rest hrest => ?_
  rw [lexeme_ordinary hkind.2.1, if_pos (hkind.2.2 rest),
    takeWhile_apart hbody (by decide) (by decide) hrest, ← hs, String.ofList_toList]

theorem scans_quoted {s : String} (h : '\'' ∉ s.toList) :
    Scans ('\'' :: (s.toList ++ ['\''])) [quoted s] := by
  refine .single (by decide) fun text rest _ => ?_
  have hbody : (s.toList ++ ['\''] ++ rest).takeWhile (· ≠ '\'') = s.toList := by
    rw [List.append_assoc, List.takeWhile_append_of_pos]
    · simp
    · intro d hd
      simpa using fun heq : d = '\'' => h (heq ▸ hd)
  rw [lexeme_quote (.inl rfl), hbody, if_pos (by simp), String.ofList_toList]
  simp

theorem scans_symbol (o : Comparison) : Scans o.symbol.toList [op o o.symbol] := by
  cases o with
  | eq | ne | le | ge => exact .single (by decide) fun text rest _ => rfl
  | lt | gt =>
    refine .single (by decide) fun text rest hrest => ?_
    rcases rest with _ | ⟨d, rest⟩
    · rfl
    · rcases hrest d rfl with rfl | rfl <;> rfl

theorem operator_ok {n : Nat} (h : operator text c cs = .ok (t, n)) :
    ∃ o symbol, t = op o symbol := by
  simp only [operator] at h
  split at h
  · cases h
    exact ⟨_, _, rfl⟩
  split at h
  · cases h
    exact ⟨_, _, rfl⟩
  · cases h

theorem isName_of_lexeme {s : String} {n : Nat} (h : lexeme text c cs = .ok (word s, n)) :
    IsName s := by
  rcases character_cases c with rfl | rfl | hquote | hop | hord
  · cases h
  · cases h
  · rw [lexeme_quote hquote] at h
    split at h <;> cases h
  · rw [lexeme_operator hop] at h
    obtain ⟨o, symbol, heq⟩ := operator_ok h
    cases heq
  · rw [lexeme_ordinary hord] at h
    split_ifs at h with hnumber hword
    · cases h
    · obtain ⟨rfl, _⟩ : String.ofList (c :: cs.takeWhile inWord) = s ∧ _ := by simpa using h
      refine ⟨c, _, String.toList_ofList, hword, ?_, fun d => List.mem_takeWhile_imp⟩
      simp only [startsNumber, Bool.or_eq_true, not_or] at hnumber
      simpa using hnumber.1

theorem isName_of_scanFrom (h : scanFrom text cs = .ok ts) {s : String} (hs : word s ∈ ts) :
    IsName s := by
  fun_induction scanFrom text cs generalizing ts with
  | case1 =>
    cases h
    cases hs
  | case2 c cs hc ih => exact ih h hs
  | case3 c cs hc fault hlex => cases h
  | case4 c cs hc t n hlex ih =>
    obtain ⟨ts', hts, rfl⟩ := map_ok h
    rcases List.mem_cons.mp hs with rfl | hs
    · exact isName_of_lexeme hlex
    · exact ih hts hs

/-! ## Texts cut at a space -/

theorem takeWhile_cut {p : Char → Bool} (h : p ' ' = false) :
    (body ++ ' ' :: rest).takeWhile p = body.takeWhile p := by
  rw [List.takeWhile_append]
  split
  · next hall => simp [h, (List.takeWhile_prefix p).eq_of_length hall]
  · rfl

theorem operator_cut {text' : String} {n : Nat} (h : operator text c body = .ok (t, n)) :
    n ≤ body.length ∧ operator text' c (body ++ ' ' :: rest) = .ok (t, n) := by
  cases body with
  | nil =>
    have hnone : Comparison.ofSymbol? [c, ' '] = none := by
      unfold Comparison.ofSymbol?
      split <;> simp_all
    simp only [operator, List.take_nil, List.nil_append, List.take_succ_cons, List.take_zero,
      hnone] at h ⊢
    rcases ho : Comparison.ofSymbol? [c] with _ | o
    · simp [ho] at h
    · simp only [ho, Except.ok.injEq, Prod.mk.injEq, List.length_nil] at h ⊢
      exact ⟨by omega, h⟩
  | cons d body =>
    simp only [operator, List.cons_append, List.take_succ_cons, List.take_zero] at h ⊢
    rcases ho : Comparison.ofSymbol? [c, d] with _ | o
    · rcases ho' : Comparison.ofSymbol? [c] with _ | o'
      · simp [ho, ho'] at h
      · simp only [ho, ho', Except.ok.injEq, Prod.mk.injEq] at h ⊢
        exact ⟨by omega, h⟩
    · simp only [ho, Except.ok.injEq, Prod.mk.injEq, List.length_singleton] at h ⊢
      exact ⟨by simp; omega, h⟩

theorem lexeme_cut (text' : String) {n : Nat} (rest : List Char)
    (h : lexeme text c body = .ok (t, n)) :
    n ≤ body.length ∧ lexeme text' c (body ++ ' ' :: rest) = .ok (t, n) := by
  rcases character_cases c with rfl | rfl | hquote | hop | hord
  · cases h
    exact ⟨Nat.zero_le _, rfl⟩
  · cases h
    exact ⟨Nat.zero_le _, rfl⟩
  · rw [lexeme_quote hquote] at h ⊢
    split at h
    · next hlt =>
      cases h
      rw [List.takeWhile_append, if_neg (Nat.ne_of_lt hlt),
        if_pos (Nat.lt_of_lt_of_le hlt (by simp))]
      exact ⟨hlt, rfl⟩
    · cases h
  · rw [lexeme_operator hop] at h ⊢
    exact operator_cut h
  · have hnumber : startsNumber c (body ++ ' ' :: rest) = startsNumber c body := by
      cases body <;> simp [startsNumber]
    rw [lexeme_ordinary hord] at h ⊢
    rw [hnumber, takeWhile_cut (by decide), takeWhile_cut (by decide)]
    constructor
    · split_ifs at h <;> cases h <;> exact (List.takeWhile_prefix _).length_le
    · split_ifs at h ⊢ <;> exact h

/-- If the front of a text can be scanned, then a space behind it ends its last token. -/
theorem scanFrom_cut (text' : String) (h : scanFrom text cs = .ok ts) :
    scanFrom text' (cs ++ ' ' :: rest) = (scanFrom text' rest).map (ts ++ ·) := by
  fun_induction scanFrom text cs generalizing ts with
  | case1 =>
    cases h
    rw [List.nil_append, scanFrom_space]
    cases scanFrom text' rest <;> rfl
  | case2 c cs hc ih =>
    rw [List.cons_append, scanFrom, if_pos hc]
    exact ih h
  | case3 c cs hc fault hlex => cases h
  | case4 c cs hc t n hlex ih =>
    obtain ⟨ts', hts, rfl⟩ := map_ok h
    obtain ⟨hle, hlex'⟩ := lexeme_cut text' rest hlex
    rw [List.cons_append, scanFrom, if_neg hc, hlex']
    simp only
    rw [List.drop_append_of_le_length hle, ih hts]
    cases scanFrom text' rest <;> rfl

end Token
end QueryCluster
