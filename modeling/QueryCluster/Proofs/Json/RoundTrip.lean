import QueryCluster.Json.Reader
import QueryCluster.Json.Text
import QueryCluster.Proofs.Number.Integer

/-!
# Contents read back from JSON

Text that was written from contents holds no blanks, so each character decides what is read next. What a
value is written as is read as that value, whatever closing mark or comma stands behind it.
-/
namespace QueryCluster.Json

/-! ## Texts -/

theorem hexValue?_hexDigit : ∀ n < 16, hexValue? (hexDigit n) = some n := by decide

theorem unicodeEscape?_control {c : Char} (h : c.toNat < 32) (rest : List Char) :
    unicodeEscape? ('0' :: '0' :: hexDigit (c.toNat / 16) :: hexDigit (c.toNat % 16) :: rest) =
      some (c, rest) := by
  have hhigh := hexValue?_hexDigit (c.toNat / 16) (by omega)
  have hlow := hexValue?_hexDigit (c.toNat % 16) (by omega)
  have hzero : hexValue? '0' = some 0 := rfl
  have hvalue : c.toNat / 16 * 16 + c.toNat % 16 = c.toNat := by omega
  have hplain : ¬ (0xdc00 ≤ c.toNat ∧ c.toNat ≤ 0xdfff) := by omega
  have hfirst : ¬ (0xd800 ≤ c.toNat ∧ c.toNat ≤ 0xdbff) := by omega
  simp [unicodeEscape?, hex4?, hhigh, hlow, hzero, hvalue, hplain, hfirst, Char.ofNat_toNat]

theorem textBody?_escapedChar {c : Char} {fuel : Nat} {cs text rest : List Char}
    (h : textBody? fuel cs = some (text, rest)) :
    textBody? (fuel + 1) (escapedChar c ++ cs) = some (c :: text, rest) := by
  unfold escapedChar
  split_ifs with h₁ h₂ h₃ h₄ h₅ h₆ h₇ hcontrol
  case pos => subst h₁; simp [textBody?, simpleEscape?, h]
  case pos => subst h₂; simp [textBody?, simpleEscape?, h]
  case pos => subst h₃; simp [textBody?, simpleEscape?, h]
  case pos => subst h₄; simp [textBody?, simpleEscape?, h]
  case pos => subst h₅; simp [textBody?, simpleEscape?, h]
  case pos => subst h₆; simp [textBody?, simpleEscape?, h]
  case pos => subst h₇; simp [textBody?, simpleEscape?, h]
  case pos =>
    have hescape := unicodeEscape?_control hcontrol cs
    simp only [List.cons_append, List.nil_append]
    rw [textBody?, hescape]
    simp [h]
  case neg =>
    simp [textBody?, h₂, hcontrol, h]

theorem length_escapedChar_pos (c : Char) : 0 < (escapedChar c).length := by
  unfold escapedChar
  split_ifs <;> simp

theorem textBody?_escaped {text rest : List Char} {fuel : Nat}
    (h : (text.flatMap escapedChar).length < fuel) :
    textBody? fuel (text.flatMap escapedChar ++ '"' :: rest) = some (text, rest) := by
  induction text generalizing fuel with
  | nil =>
    cases fuel with
    | zero => omega
    | succ fuel => rfl
  | cons c text ih =>
    have hchar := length_escapedChar_pos c
    rw [List.flatMap_cons, List.length_append] at h
    cases fuel with
    | zero => omega
    | succ fuel =>
      rw [List.flatMap_cons, List.append_assoc]
      exact textBody?_escapedChar (ih (by omega))

/-- The text behind an opening quote, with the fuel its readers give it. -/
theorem textBody?_quoted (s : String) (rest : List Char) :
    textBody? ((s.toList.flatMap escapedChar ++ '"' :: rest).length + 1)
      (s.toList.flatMap escapedChar ++ '"' :: rest) = some (s.toList, rest) :=
  textBody?_escaped (by rw [List.length_append]; omega)

theorem quotedChars_append (s : String) (rest : List Char) :
    quotedChars s ++ rest = '"' :: (s.toList.flatMap escapedChar ++ '"' :: rest) := by
  simp [quotedChars]

theorem skipSpace_cons {c : Char} (h : isSpace c = false) (cs : List Char) :
    skipSpace (c :: cs) = c :: cs := by
  simp [skipSpace, h]

theorem key?_quoted (s : String) (rest : List Char) :
    key? (quotedChars s ++ ':' :: rest) = some (s, rest) := by
  rw [quotedChars_append, key?, skipSpace_cons (by decide)]
  simp only [textBody?_quoted, Option.bind_eq_bind, Option.bind_some]
  rw [skipSpace_cons (by decide)]
  simp

/-! ## Numbers -/

/-- Behind a value stands nothing, a comma or the end of a collection. -/
def Closes (rest : List Char) : Prop := ∀ c ∈ rest.head?, c = ',' ∨ c = ']' ∨ c = '\x7d'

theorem closes_nil : Closes [] := by simp [Closes]

theorem closes_comma (rest : List Char) : Closes (',' :: rest) := by simp [Closes]

theorem closes_list (rest : List Char) : Closes (']' :: rest) := by simp [Closes]

theorem closes_map (rest : List Char) : Closes ('\x7d' :: rest) := by simp [Closes]

variable {rest : List Char} {fuel depth n : Nat}

theorem Closes.cases (h : Closes rest) :
    rest = [] ∨ ∃ others, rest = ',' :: others ∨ rest = ']' :: others ∨ rest = '\x7d' :: others := by
  cases rest with
  | nil => exact .inl rfl
  | cons c others =>
    refine .inr ⟨others, ?_⟩
    rcases h c (by simp) with rfl | rfl | rfl <;> simp

theorem digits?_append {ds : List Char} (hne : ds ≠ []) (hdigit : ∀ c ∈ ds, c.isDigit = true)
    (hrest : Closes rest) : digits? (ds ++ rest) = some (ds, rest) := by
  have hstop : rest.takeWhile Char.isDigit = [] := by
    rcases hrest.cases with rfl | ⟨_, rfl | rfl | rfl⟩ <;> rfl
  have hbody : (ds ++ rest).takeWhile Char.isDigit = ds := by
    rw [List.takeWhile_append_of_pos hdigit, hstop, List.append_nil]
  rw [digits?, hbody]
  simp [hne]

theorem fraction?_closes (hrest : Closes rest) : fraction? rest = some ([], rest) := by
  rcases hrest.cases with rfl | ⟨_, rfl | rfl | rfl⟩ <;> rfl

theorem exponent?_closes (hrest : Closes rest) : exponent? rest = some ([], rest) := by
  rcases hrest.cases with rfl | ⟨_, rfl | rfl | rfl⟩ <;> rfl

theorem head?_toDigits_ne_zero (h : 0 < n) : (Nat.toDigits 10 n).head? ≠ some '0' := by
  induction n using Nat.strong_induction_on with
  | _ n ih =>
    by_cases hsmall : n < 10
    · have hdigit : ∀ m < 10, 0 < m → Nat.digitChar m ≠ '0' := by decide
      rw [Nat.toDigits_of_lt_base hsmall]
      simpa using hdigit n hsmall h
    · have hfront := ih (n / 10) (by omega) (by omega)
      obtain ⟨c, ds, hds⟩ := List.exists_cons_of_ne_nil (Number.toDigits_ne_nil (n / 10))
      rw [Nat.toDigits_of_base_le (by decide) (by omega), hds]
      rwa [hds] at hfront

/-- Digits of a number have no zero in front of others. -/
theorem toDigits_canonical (h : 1 < (Nat.toDigits 10 n).length) :
    (Nat.toDigits 10 n).head? ≠ some '0' := by
  rcases Nat.eq_zero_or_pos n with rfl | hpos
  · exact absurd h (by decide)
  · exact head?_toDigits_ne_zero hpos

theorem toDigits_start (n : Nat) : ∃ c ds, Nat.toDigits 10 n = c :: ds ∧ c.isDigit = true := by
  obtain ⟨c, ds, hds⟩ := List.exists_cons_of_ne_nil (Number.toDigits_ne_nil n)
  exact ⟨c, ds, hds, Number.isDigit_of_mem_toDigits (n := n) (by simp [hds])⟩

theorem ne_of_isDigit {c d : Char} (h : c.isDigit = true) (hd : d.isDigit = false) : c ≠ d := by
  rintro rfl
  rw [h] at hd
  cases hd

theorem numeral?_toDigits (n : Nat) (hrest : Closes rest) :
    numeral? (Nat.toDigits 10 n ++ rest) = some (⟨false, Nat.toDigits 10 n, []⟩, rest) := by
  have hdigits := digits?_append (Number.toDigits_ne_nil n)
    (fun c => Number.isDigit_of_mem_toDigits) hrest
  obtain ⟨c, ds, hds, hc⟩ := toDigits_start n
  unfold numeral?
  split
  next heq =>
    split at heq
    next hminus =>
      rw [hds] at hminus
      exact absurd (List.cons.inj hminus).1 (ne_of_isDigit hc (by decide))
    next =>
      cases heq
      simp +contextual [hdigits, toDigits_canonical, fraction?_closes hrest, exponent?_closes hrest]

theorem numeral?_minus (n : Nat) (hrest : Closes rest) :
    numeral? ('-' :: (Nat.toDigits 10 n ++ rest)) = some (⟨true, Nat.toDigits 10 n, []⟩, rest) := by
  have hdigits := digits?_append (Number.toDigits_ne_nil n)
    (fun c => Number.isDigit_of_mem_toDigits) hrest
  rw [numeral?]
  simp +contextual [hdigits, toDigits_canonical, fraction?_closes hrest, exponent?_closes hrest]

theorem size_toDigits (n : Nat) :
    (Nat.toDigits 10 n).foldl (fun v d => v * 10 + (d.toNat - 48)) 0 = n := by
  have hstep : (fun (v : Nat) (d : Char) => v * 10 + (d.toNat - 48)) =
      fun v d => 10 * v + (d.toNat - '0'.toNat) := by
    funext v d
    rw [Nat.mul_comm]
    rfl
  rw [hstep]
  exact Nat.ofDigitChars_toDigits (by decide) (by decide)

theorem content?_unsigned (u : UInt64) :
    Numeral.content? ⟨false, Nat.toDigits 10 u.toNat, []⟩ = some (.unsigned u) := by
  have hrange : u.toNat < UInt64.size := u.toNat_lt
  simp [Numeral.content?, size_toDigits, hrange]

theorem content?_negative {i : Int64} (h : i.toInt = Int.negSucc n) :
    Numeral.content? ⟨true, Nat.toDigits 10 (n + 1), []⟩ = some (.signed i) := by
  have hlow := i.le_toInt
  have hrange : n + 1 ≤ 1 <<< 63 := by
    rw [h, Int.negSucc_eq] at hlow
    omega
  have hvalue : Int64.ofInt (-((n + 1 : Nat) : Int)) = i := by
    have hneg : -((n + 1 : Nat) : Int) = i.toInt := by rw [h]; rfl
    rw [hneg, Int64.ofInt_toInt]
  simp only [Numeral.content?, size_toDigits]
  rw [if_neg (by simp), if_pos (by simpa using hrange), hvalue]

/-! ## Values -/

/-- Entries of a map with texts for keys. -/
def named (entries : List (String × Content)) : List (Content × Content) :=
  entries.map fun e => (.text e.1, e.2)

/-- Contents that text says all of, at most `depth` collections deep. -/
inductive Exact : (depth : Nat) → Content → Prop where
  | null {depth : Nat} : Exact depth .null
  | bool {depth : Nat} (b : Bool) : Exact depth (.bool b)
  | unsigned {depth : Nat} (n : UInt64) : Exact depth (.unsigned n)
  | signed {depth : Nat} {i : Int64} (negative : i.toInt < 0) : Exact depth (.signed i)
  | text {depth : Nat} (s : String) : Exact depth (.text s)
  | list {depth : Nat} {items : List Content} (items_exact : ∀ c ∈ items, Exact depth c) :
      Exact (depth + 1) (.list items)
  | map {depth : Nat} {entries : List (String × Content)} (exact : ∀ e ∈ entries, Exact depth e.2) :
      Exact (depth + 1) (.map (named entries))

/-- What `c` is written as is read as `c`, in front of what may follow it. -/
def ReadBack (depth : Nat) (c : Content) : Prop :=
  ∀ fuel rest, (chars c).length ≤ fuel → Closes rest →
    value? fuel depth (chars c ++ rest) = some (c, rest)

/-- A character that a value begins with. -/
def opens (c : Char) : Bool := !isSpace c && c != ']' && c != '\x7d'

theorem opens_of_isDigit {c : Char} (h : c.isDigit = true) : opens c = true := by
  have hblank : c ≠ ' ' ∧ c ≠ '\n' ∧ c ≠ '\t' ∧ c ≠ '\r' := by
    refine ⟨?_, ?_, ?_, ?_⟩ <;> exact ne_of_isDigit h (by decide)
  have hclose : c ≠ ']' ∧ c ≠ '\x7d' := by
    constructor <;> exact ne_of_isDigit h (by decide)
  simp [opens, isSpace, hblank, hclose]

theorem chars_start (c : Content) : ∃ first others, chars c = first :: others ∧ opens first = true := by
  cases c with
  | null => exact ⟨'n', _, rfl, by decide⟩
  | bool b =>
    cases b with
    | false => exact ⟨'f', _, rfl, by decide⟩
    | true => exact ⟨'t', _, rfl, by decide⟩
  | unsigned n =>
    obtain ⟨c, ds, hds, hc⟩ := toDigits_start n.toNat
    exact ⟨c, ds, by rw [chars]; exact Nat.toList_repr.trans hds, opens_of_isDigit hc⟩
  | signed i =>
    rw [chars]
    cases i.toInt with
    | ofNat n =>
      obtain ⟨c, ds, hds, hc⟩ := toDigits_start n
      exact ⟨c, ds, (Number.toList_toString_ofNat n).trans hds, opens_of_isDigit hc⟩
    | negSucc n => exact ⟨'-', _, Number.toList_toString_negSucc n, by decide⟩
  | real => exact ⟨'n', _, rfl, by decide⟩
  | text s => exact ⟨'"', _, rfl, by decide⟩
  | list items => exact ⟨'[', _, rfl, by decide⟩
  | map entries => exact ⟨'\x7b', _, rfl, by decide⟩

theorem readBack_text (depth : Nat) (s : String) : ReadBack depth (.text s) := by
  intro fuel rest hfuel hrest
  cases fuel with
  | zero => simp [chars, quotedChars] at hfuel
  | succ fuel =>
    rw [chars, quotedChars_append]
    unfold value?
    rw [skipSpace_cons (by decide)]
    simp only [textBody?_quoted]
    simp

theorem isSpace_of_opens {c : Char} (h : opens c = true) : isSpace c = false := by
  simp only [opens, Bool.and_eq_true, Bool.not_eq_true'] at h
  exact h.1.1

theorem value?_number {c : Char} {cs : List Char} {n : Numeral} {content : Content}
    (h : c = '-' ∨ c.isDigit = true) (hn : numeral? (c :: cs) = some (n, rest))
    (hc : n.content? = some content) : value? (fuel + 1) depth (c :: cs) = some (content, rest) := by
  have hopens : opens c = true := by
    rcases h with rfl | hdigit
    · decide
    · exact opens_of_isDigit hdigit
  unfold value?
  rw [skipSpace_cons (isSpace_of_opens hopens)]
  split
  case h_6 heq _ _ _ _ =>
    cases heq
    simp [h, hn, hc]
  case h_7 heq => cases heq
  -- A text or a collection begins with another character.
  all_goals
    rename_i heq
    cases heq
    exact absurd h (by decide)

theorem readBack_unsigned (depth : Nat) (n : UInt64) : ReadBack depth (.unsigned n) := by
  intro fuel rest hfuel hrest
  obtain ⟨c, ds, hds, hc⟩ := toDigits_start n.toNat
  have hchars : chars (.unsigned n) = c :: ds := by rw [chars]; exact Nat.toList_repr.trans hds
  have hnumeral := numeral?_toDigits n.toNat hrest
  rw [hds, List.cons_append] at hnumeral
  rw [hchars] at hfuel ⊢
  cases fuel with
  | zero => simp at hfuel
  | succ fuel => exact value?_number (.inr hc) (hds ▸ hnumeral) (content?_unsigned n)

theorem readBack_signed (depth : Nat) {i : Int64} (h : i.toInt < 0) : ReadBack depth (.signed i) := by
  intro fuel rest hfuel hrest
  obtain ⟨n, hn⟩ := Int.eq_negSucc_of_lt_zero h
  have hchars : chars (.signed i) = '-' :: Nat.toDigits 10 (n + 1) := by
    rw [chars, hn, Number.toList_toString_negSucc]
  rw [hchars] at hfuel ⊢
  cases fuel with
  | zero => simp at hfuel
  | succ fuel => exact value?_number (.inl rfl) (numeral?_minus (n + 1) hrest) (content?_negative hn)

theorem value?_literal {word : Content} (h : word = .null ∨ ∃ b, word = .bool b) (cs : List Char) :
    value? (fuel + 1) depth (chars word ++ cs) = some (word, cs) := by
  obtain rfl | ⟨b, rfl⟩ := h
  · rfl
  · cases b <;> rfl

theorem items?_joined {items : List Content} (hne : items ≠ []) (h : ∀ c ∈ items, ReadBack depth c)
    (hfuel : (joined (itemChars items)).length < fuel) :
    items? fuel depth (joined (itemChars items) ++ ']' :: rest) = some (items, rest) := by
  induction items generalizing fuel with
  | nil => exact absurd rfl hne
  | cons c items ih =>
    obtain ⟨hc, hitems⟩ := List.forall_mem_cons.mp h
    cases fuel with
    | zero => omega
    | succ fuel =>
      cases items with
      | nil =>
        simp only [itemChars, joined] at hfuel ⊢
        rw [items?, hc fuel _ (by omega) (closes_list rest)]
        simp [skipSpace_cons (show isSpace ']' = false by decide)]
      | cons next items =>
        have hshorter : (joined (itemChars (next :: items))).length < fuel := by
          simp [itemChars, joined] at hfuel ⊢
          omega
        have hrest := ih (by simp) hitems hshorter
        simp only [itemChars, joined, List.append_assoc, List.cons_append, List.length_append,
          List.length_cons] at hfuel hrest ⊢
        rw [items?, hc fuel _ (by omega) (closes_comma _)]
        simp [skipSpace_cons (show isSpace ',' = false by decide), hrest]

theorem entries?_joined {entries : List (String × Content)} (hne : entries ≠ [])
    (h : ∀ e ∈ entries, ReadBack depth e.2)
    (hfuel : (joined (entryChars (named entries))).length < fuel) :
    entries? fuel depth (joined (entryChars (named entries)) ++ '\x7d' :: rest) =
      some (named entries, rest) := by
  induction entries generalizing fuel with
  | nil => exact absurd rfl hne
  | cons e entries ih =>
    obtain ⟨he, hentries⟩ := List.forall_mem_cons.mp h
    cases fuel with
    | zero => omega
    | succ fuel =>
      cases entries with
      | nil =>
        simp only [named, List.map_cons, List.map_nil, entryChars, joined, keyChars, List.append_assoc,
          List.cons_append, List.length_append, List.length_cons] at hfuel ⊢
        rw [entries?, key?_quoted]
        simp only [Option.bind_eq_bind, Option.bind_some]
        rw [he fuel _ (by omega) (closes_map rest)]
        simp [skipSpace_cons (show isSpace '\x7d' = false by decide)]
      | cons next entries =>
        have hshorter : (joined (entryChars (named (next :: entries)))).length < fuel := by
          simp [named, entryChars, joined] at hfuel ⊢
          omega
        have hrest := ih (by simp) hentries hshorter
        simp only [named, List.map_cons, entryChars, joined, keyChars, List.append_assoc,
          List.cons_append, List.length_append, List.length_cons] at hfuel hrest ⊢
        rw [entries?, key?_quoted]
        simp only [Option.bind_eq_bind, Option.bind_some]
        rw [he fuel _ (by omega) (closes_comma _)]
        simp [skipSpace_cons (show isSpace ',' = false by decide), hrest]

theorem joined_start {items : List Content} (hne : items ≠ []) :
    ∃ first others, joined (itemChars items) = first :: others ∧ opens first = true := by
  obtain ⟨c, items, rfl⟩ := List.exists_cons_of_ne_nil hne
  obtain ⟨first, others, hchars, hopens⟩ := chars_start c
  cases items with
  | nil => exact ⟨first, _, by simpa only [itemChars, joined] using hchars, hopens⟩
  | cons next items => exact ⟨first, _, by simp only [itemChars, joined, hchars]; rfl, hopens⟩

theorem entries_start {entries : List (String × Content)} (hne : entries ≠ []) :
    ∃ others, joined (entryChars (named entries)) = '"' :: others := by
  obtain ⟨e, entries, rfl⟩ := List.exists_cons_of_ne_nil hne
  cases entries with
  | nil => exact ⟨_, rfl⟩
  | cons next entries => exact ⟨_, rfl⟩

theorem readBack_list {items : List Content} (h : ∀ c ∈ items, ReadBack depth c) :
    ReadBack (depth + 1) (.list items) := by
  intro fuel rest hfuel hrest
  simp only [chars, List.append_assoc, List.cons_append, List.length_append, List.length_cons,
    List.nil_append, List.length_nil] at hfuel ⊢
  cases fuel with
  | zero => omega
  | succ fuel =>
    unfold value?
    rw [skipSpace_cons (by decide)]
    by_cases hne : items = []
    · subst hne
      simp [itemChars, joined, skipSpace_cons (show isSpace ']' = false by decide)]
    · obtain ⟨first, others, hstart, hopens⟩ := joined_start hne
      have hread : items? fuel depth (joined (itemChars items) ++ ']' :: rest) = some (items, rest) :=
        items?_joined hne h (by omega)
      rw [hstart, List.cons_append] at hread ⊢
      simp only [skipSpace_cons (isSpace_of_opens hopens)]
      split
      · next heq =>
        cases heq
        exact absurd hopens (by decide)
      · next => simp [hread]

theorem readBack_map {entries : List (String × Content)} (h : ∀ e ∈ entries, ReadBack depth e.2) :
    ReadBack (depth + 1) (.map (named entries)) := by
  intro fuel rest hfuel hrest
  simp only [chars, List.append_assoc, List.cons_append, List.length_append, List.length_cons,
    List.nil_append, List.length_nil] at hfuel ⊢
  cases fuel with
  | zero => omega
  | succ fuel =>
    unfold value?
    rw [skipSpace_cons (by decide)]
    by_cases hne : entries = []
    · subst hne
      simp [named, entryChars, joined, skipSpace_cons (show isSpace '\x7d' = false by decide)]
    · obtain ⟨others, hstart⟩ := entries_start hne
      have hread : entries? fuel depth (joined (entryChars (named entries)) ++ '\x7d' :: rest) =
          some (named entries, rest) := entries?_joined hne h (by omega)
      rw [hstart, List.cons_append] at hread ⊢
      simp [skipSpace_cons (show isSpace '"' = false by decide), hread]

theorem Exact.readBack {c : Content} (h : Exact depth c) : ReadBack depth c := by
  induction h with
  | null =>
    intro fuel rest hfuel hrest
    cases fuel with
    | zero => exact absurd hfuel (by decide)
    | succ fuel => exact value?_literal (.inl rfl) rest
  | bool b =>
    intro fuel rest hfuel hrest
    cases fuel with
    | zero => cases b <;> exact absurd hfuel (by decide)
    | succ fuel => exact value?_literal (.inr ⟨b, rfl⟩) rest
  | unsigned n => exact readBack_unsigned _ n
  | signed negative => exact readBack_signed _ negative
  | text s => exact readBack_text _ s
  | list _ ih => exact readBack_list ih
  | map _ ih => exact readBack_map ih

/-- The text of contents that are not too deep is read as these contents. -/
theorem content?_render {c : Content} (h : Exact depthLimit c) : content? (render c) = some c := by
  have hchars : (render c).toList = chars c := String.toList_ofList
  have hread := h.readBack (2 * (chars c).length + 2) [] (by omega) closes_nil
  rw [List.append_nil] at hread
  unfold content?
  simp only [hchars, hread, Option.bind_eq_bind, Option.bind_some]
  rfl

end QueryCluster.Json
