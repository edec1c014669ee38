import QueryCluster.Pipeline.Compile
import QueryCluster.Proofs.Expr.Grammar

/-!
# Names of output columns

A written output column is cut where the word `as` first stands between spaces, whether that is the
word in front of the name or one of the expression's own. In the first case the column is what its
parts say; in the second the front of the expression is no expression.
-/
namespace QueryCluster

theorem Text.eq_or_of_toLower {c d : Char} (h : c.toLower = d) :
    c = d ∨ 65 ≤ c.toNat ∧ c.toNat ≤ 90 ∧ d.toNat = c.toNat + 32 := by
  subst h
  unfold Char.toLower
  split
  · next hupper =>
    have hlow : 65 ≤ c.toNat := hupper.1
    have hhigh : c.toNat ≤ 90 := hupper.2
    have hval : c.val.toNat = c.toNat := rfl
    have hshift : ('a'.val - 'A'.val).toNat = 32 := rfl
    refine .inr ⟨hlow, hhigh, ?_⟩
    rw [Char.toNat, UInt32.toNat_add, hshift, hval]
    omega
  · exact .inl rfl

namespace Pipeline

variable {p cs rest a b : List Char}

theorem splitFirst_append (hp : p ≠ []) (h : p <:+: cs.map Char.toLower) (rest : List Char) :
    ∃ a m b, splitFirst p (cs ++ rest) = some (a, b ++ rest) ∧ cs = a ++ (m ++ b) ∧
      m.map Char.toLower = p := by
  induction cs with
  | nil => exact absurd (List.infix_nil.mp h) hp
  | cons c cs ih =>
    have hlength : p.length ≤ (c :: cs).length := by simpa using h.length_le
    have htake : (c :: (cs ++ rest)).take p.length = (c :: cs).take p.length :=
      List.take_append_of_le_length hlength
    have hdrop : (c :: (cs ++ rest)).drop p.length = (c :: cs).drop p.length ++ rest :=
      List.drop_append_of_le_length hlength
    by_cases hfront : ((c :: cs).take p.length).map Char.toLower = p
    · refine ⟨[], (c :: cs).take p.length, (c :: cs).drop p.length, ?_, ?_, hfront⟩
      · rw [List.cons_append, splitFirst, htake, hdrop, if_pos hfront]
      · rw [List.nil_append, List.take_append_drop]
    · rcases List.infix_cons_iff.mp h with hprefix | hinfix
      · refine absurd ?_ hfront
        rw [List.map_take]
        exact (List.prefix_iff_eq_take.mp hprefix).symm
      · obtain ⟨a, m, b, hsplit, rfl, hm⟩ := ih hinfix
        refine ⟨c :: a, m, b, ?_, rfl, hm⟩
        rw [List.cons_append, splitFirst, htake, if_neg hfront, hsplit]
        rfl

/-- The word `as` stands in the text between spaces, or at its end after a space. -/
def SaysAs (t : String) : Prop := " as ".toList <:+: (t.toList ++ [' ']).map Char.toLower

instance (t : String) : Decidable (SaysAs t) :=
  inferInstanceAs (Decidable (" as ".toList <:+: (t.toList ++ [' ']).map Char.toLower))

/-- What is cut out is a word that is no keyword of an expression. -/
theorem separator_eq {m : List Char} (h : m.map Char.toLower = " as ".toList) :
    ∃ s, m = ' ' :: (s.toList ++ [' ']) ∧ Token.IsName s ∧ Text.lowerAscii s = "as" := by
  have hspace : ∀ c : Char, c.toLower = ' ' → c = ' ' := by
    intro c hc
    rcases Text.eq_or_of_toLower hc with rfl | ⟨hlow, _, hcode⟩
    · rfl
    · have hcode' : 32 = c.toNat + 32 := hcode
      omega
  have hletter : ∀ c d upper : Char, d.toNat = upper.toNat + 32 → c.toLower = d →
      c = d ∨ c = upper := by
    intro c d upper hupper hc
    rcases Text.eq_or_of_toLower hc with rfl | ⟨_, _, hcode⟩
    · exact .inl rfl
    · exact .inr (Char.toNat_inj.mp (by omega))
  have hchars : " as ".toList = [' ', 'a', 's', ' '] := rfl
  simp only [hchars, List.map_eq_cons_iff, List.map_eq_nil_iff] at h
  obtain ⟨c₀, _, rfl, h₀, c₁, _, rfl, h₁, c₂, _, rfl, h₂, c₃, _, rfl, h₃, rfl⟩ := h
  refine ⟨String.ofList [c₁, c₂], ?_, ⟨c₁, [c₂], String.toList_ofList, ?_⟩, ?_⟩
  · rw [hspace c₀ h₀, hspace c₃ h₃, String.toList_ofList]
    rfl
  · rw [List.forall_mem_singleton]
    rcases hletter c₁ 'a' 'A' rfl h₁ with rfl | rfl <;>
      rcases hletter c₂ 's' 'S' rfl h₂ with rfl | rfl <;> decide
  · rw [Text.lowerAscii, String.toList_ofList, List.map_cons, List.map_singleton, h₁, h₂]

theorem splitFirst_as {t : String} (h : ¬ SaysAs t) (rest : List Char) :
    splitFirst " as ".toList (t.toList ++ " as ".toList ++ rest) = some (t.toList, rest) := by
  have hsays : " as ".toList <:+: (t.toList ++ " as ".toList).map Char.toLower :=
    ⟨t.toList.map Char.toLower, [], by simp⟩
  obtain ⟨a, m, b, hsplit, heq, hm⟩ := splitFirst_append (by decide) hsays rest
  rcases List.eq_nil_or_concat b with rfl | ⟨b, c, rfl⟩
  · have hlength : m.length = 4 := by simpa using congrArg List.length hm
    rw [List.append_nil] at heq
    obtain ⟨rfl, _⟩ := List.append_inj' heq (by simp [hlength])
    exact hsplit
  · -- the occurrence would end in front of the last space
    refine absurd ?_ h
    have hfront : t.toList ++ [' ', 'a', 's'] = a ++ (m ++ b) := by
      have := congrArg List.dropLast heq
      simpa [← List.append_assoc] using this
    have hinfix : " as ".toList <:+: (t.toList ++ [' ']).map Char.toLower ++ ['a'] ++ ['s'] := by
      refine ⟨a.map Char.toLower, b.map Char.toLower, ?_⟩
      have := congrArg (List.map Char.toLower) hfront
      simpa [hm] using this.symm
    rcases List.infix_concat_iff.mp hinfix with ⟨front, hsuffix⟩ | hinfix
    · simpa using congrArg List.getLast? hsuffix
    rcases List.infix_concat_iff.mp hinfix with ⟨front, hsuffix⟩ | hinfix
    · simpa using congrArg List.getLast? hsuffix
    · exact hinfix

theorem inert_as {s : String} (ts : List Token) (h : Text.lowerAscii s = "as") :
    Expr.Inert (.word s :: ts) := by
  simp [Expr.Inert, Expr.Ended, Expr.eat?, Token.isKeyword, h]

/-- Where a text that is read has the word `as`, what stands in front of the word is not read. -/
theorem read_cut {t s : String} {e e' : Expr} {a b : List Char} (h : Expr.read t = .ok e)
    (hs : Token.IsName s) (has : Text.lowerAscii s = "as")
    (ht : t.toList ++ [' '] = a ++ ' ' :: (s.toList ++ ' ' :: b)) :
    Expr.read (String.ofList a) ≠ .ok e' := by
  intro h'
  obtain ⟨ts, hscan, hread⟩ := Expr.read_eq_ok.mp h
  obtain ⟨front, hfront, hread'⟩ := Expr.read_eq_ok.mp h'
  rw [Token.scan, String.toList_ofList] at hfront
  have hwhole : Token.scanFrom t (t.toList ++ [' ']) = .ok ts := by
    rw [Token.scanFrom_cut t hscan, Token.scanFrom]
    simp [Except.map]
  have hparts : Token.scanFrom t (t.toList ++ [' ']) =
      ((Token.scanFrom t (' ' :: b)).map ([.word s] ++ ·)).map (front ++ ·) := by
    rw [ht, Token.scanFrom_cut t hfront, Token.scans_word hs t _ Token.apart_space]
  obtain ⟨_, hrest, rfl⟩ := map_ok (hparts.symm.trans hwhole)
  obtain ⟨back, _, rfl⟩ := map_ok hrest
  have hextended := (Expr.extends_inert (inert_as back has) _).disjunction hread' rfl rfl
    (m := 4 * (front ++ ([Token.word s] ++ back)).length + 4) (by simp only [List.length_append]; omega)
  rw [List.nil_append] at hextended
  cases hextended.symm.trans hread

/-- An expression with a name in front of which `as` stands is read as the expression under that
name, unless the expression says `as` itself: then the whole is refused. -/
theorem readProjection_as {t name : String} {e : Expr} (h : Expr.read t = .ok e)
    (hname : ∀ c ∈ name.toList, Token.startsWord c = true) :
    (¬ SaysAs t → readProjection (t ++ " as " ++ name) = .ok ⟨e, name⟩) ∧
      (SaysAs t → ∃ fault, readProjection (t ++ " as " ++ name) = .error (.expr fault)) := by
  have htext : (t ++ " as " ++ name).toList = t.toList ++ " as ".toList ++ name.toList := by
    simp
  constructor
  · intro hplain
    have htrim : Text.trimChars name.toList = name.toList :=
      Text.trimChars_eq_self
        (fun c hc => Token.not_isBlank_of_startsWord (hname c (List.mem_of_mem_head? hc)))
        fun c hc => Token.not_isBlank_of_startsWord (hname c (List.mem_of_mem_getLast? hc))
    simp only [readProjection, htext, splitFirst_as hplain, String.ofList_toList, htrim, h]
    rfl
  · intro hsays
    obtain ⟨a, m, b, hsplit, heq, hm⟩ := splitFirst_append (by decide) hsays
      ("as ".toList ++ name.toList)
    obtain ⟨s, rfl, hs, has⟩ := separator_eq hm
    have htext' : (t ++ " as " ++ name).toList =
        t.toList ++ [' '] ++ ("as ".toList ++ name.toList) := by
      simp
    rcases hfront : Expr.read (String.ofList a) with fault | e'
    · refine ⟨fault, ?_⟩
      simp only [readProjection, htext', hsplit, hfront]
      rfl
    · exact absurd hfront (read_cut h hs has (by simpa using heq))

/-- A quoted text may be the word `as`, but has to keep its spaces to itself. -/
theorem readProjection_as_quoted :
    let plain := "NOT a == 'as'"
    let cut := "a == ' as '"
    let e : Expr := .not (.compare (.column "a") .eq (.literal (.text "as")))
    let e' : Expr := .compare (.column "a") .eq (.literal (.text " as "))
    Expr.read plain = .ok e ∧ Expr.read cut = .ok e' ∧
      (∀ c ∈ "b_1".toList, Token.startsWord c = true) ∧ ¬ SaysAs plain ∧ SaysAs cut ∧
      readProjection (plain ++ " as " ++ "b_1") = .ok ⟨e, "b_1"⟩ ∧
      ∃ fault, readProjection (cut ++ " as " ++ "b_1") = .error (.expr fault) := by
  intro plain cut e e'
  have hplain : Expr.read plain = .ok e := by decide +kernel
  have hcut : Expr.read cut = .ok e' := by decide +kernel
  have hname : ∀ c ∈ "b_1".toList, Token.startsWord c = true :=
    List.all_eq_true.mp (by decide +kernel)
  have hnot : ¬ SaysAs plain := by decide +kernel
  have hsays : SaysAs cut := by decide +kernel
  exact ⟨hplain, hcut, hname, hnot, hsays, (readProjection_as hplain hname).1 hnot,
    (readProjection_as hcut hname).2 hsays⟩

/-- The spaces inside of a quoted text take an expression its name. -/
theorem not_readProjection_as : ¬ ∀ t name e, Expr.read t = .ok e → name ≠ "" →
    (∀ c ∈ name.toList, Token.startsWord c = true) → name ≠ "as" →
    readProjection (t ++ " as " ++ name) = .ok ⟨e, name⟩ := by
  intro h
  have hname := h "a == ' as '" "b" (.compare (.column "a") .eq (.literal (.text " as ")))
    (by decide +kernel) (by decide) (List.all_eq_true.mp (by decide +kernel)) (by decide)
  have hcut : readProjection ("a == ' as '" ++ " as " ++ "b") =
      .error (.expr (.unterminated "a == '")) := by decide +kernel
  cases hcut.symm.trans hname

end Pipeline
end QueryCluster
