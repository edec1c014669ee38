import QueryCluster.Proofs.Operator.Batching
import QueryCluster.Proofs.Operator.Feeds
import QueryCluster.Proofs.Split.Sorting

/-!
# A merge is a stable sort

To a merge its inputs are lists of rows: it draws the first row of some list, the least of all first
rows and of equal ones that of the lowest list. Whatever the rows are, each list keeps its order. If the
lists are in order, a row that is drawn is not greater than any that is left and less than all that are
left in lower lists, so the rows come out in order and equal rows in the order of the lists.
-/
namespace QueryCluster

open Split (InOrder equals)
open Cursor (ahead)

namespace Heads

variable {orders : List Direction} {cmp : Row → Row → Ordering} [Std.TransCmp cmp]

/-- Of the rows looked at, the one found is less than all that stand before it. -/
theorem minFrom_first {i j : Nat} {best : Option (Nat × Row)} {slots : List (Option Row)} {r : Row}
    (ha : Agrees orders cmp ((best.map Prod.snd).toList ++ slots.filterMap id))
    (h : minFrom orders i best slots = some (j, r)) :
    best = some (j, r) ∨ ∃ k, j = i + k ∧ slots[k]? = some (some r) ∧
      (∀ b ∈ best, cmp r b.2 = .lt) ∧ ∀ s, some s ∈ slots.take k → cmp r s = .lt := by
  fun_induction minFrom orders i best slots with
  | case1 i best => exact .inl h
  | case2 i best rest ih =>
    rcases ih ha h with hb | ⟨k, rfl, hk, hbest, hbefore⟩
    · exact .inl hb
    · refine .inr ⟨k + 1, by omega, by simpa using hk, hbest, fun s hs => hbefore s ?_⟩
      simpa using hs
  | case3 i t rest ih =>
    rcases ih ha h with hb | ⟨k, rfl, hk, hbest, hbefore⟩
    · cases hb
      exact .inr ⟨0, rfl, rfl, by simp, by simp⟩
    · refine .inr ⟨k + 1, by omega, by simpa using hk, by simp, fun s hs => ?_⟩
      rw [List.take_succ_cons, List.mem_cons, Option.some.injEq] at hs
      rcases hs with rfl | hs
      · exact hbest _ rfl
      · exact hbefore s hs
  | case4 i b s t rest ih =>
    obtain ⟨p, hp, hcases, hps, hpt⟩ := exists_kept i b (ha t (by simp) s (by simp))
    rw [hp] at ih h
    rcases ih (Agrees.kept ha hcases) h with hb | ⟨k, rfl, hk, hbest, hbefore⟩
    · obtain rfl : p = (j, r) := Option.some.inj hb
      rcases hcases with ⟨heq, hts⟩ | heq
      · cases heq
        exact .inr ⟨0, rfl, rfl, by simpa using hts, by simp⟩
      · exact .inl (congrArg some heq.symm)
    · have hrp := hbest p rfl
      refine .inr ⟨k + 1, by omega, by simpa using hk, ?_, fun u hu => ?_⟩
      · rintro _ ⟨⟩
        exact Std.TransCmp.lt_of_lt_of_isLE hrp hps
      · rw [List.take_succ_cons, List.mem_cons, Option.some.injEq] at hu
        rcases hu with rfl | hu
        · exact Std.TransCmp.lt_of_lt_of_isLE hrp hpt
        · exact hbefore u hu

theorem least?_first {h : Heads} {i : Nat} {r : Row} (ha : Agrees h.orders cmp (h.slots.filterMap id))
    (hl : h.least? = some (i, r)) : ∀ s, some s ∈ h.slots.take i → cmp r s = .lt := by
  rcases minFrom_first ha hl with hb | ⟨k, rfl, _, _, hlt⟩
  · cases hb
  · rwa [Nat.zero_add]

end Heads

def headsOf (orders : List Direction) (lists : List (List Row)) : Heads :=
  ⟨lists.map List.head?, orders⟩

/-- Rows drawn from lists, each of them the least of the first rows. -/
inductive Drawn (orders : List Direction) : List (List Row) → List Row → Prop
  | done {lists : List (List Row)} (h : (headsOf orders lists).least? = none) : Drawn orders lists []
  | next {front back : List (List Row)} {r : Row} {rest taken : List Row}
      (hleast : (headsOf orders (front ++ (r :: rest) :: back)).least? = some (front.length, r))
      (h : Drawn orders (front ++ rest :: back) taken) :
      Drawn orders (front ++ (r :: rest) :: back) (r :: taken)

section Drawing

variable {orders : List Direction} {lists front back : List (List Row)} {r : Row} {rest taken : List Row}

theorem eq_nil_of_least? (h : (headsOf orders lists).least? = none) : ∀ l ∈ lists, l = [] :=
  fun _ hl => List.head?_eq_none_iff.mp (Heads.least?_eq_none h _ (List.mem_map_of_mem hl))

theorem exists_of_least? {i : Nat} (h : (headsOf orders lists).least? = some (i, r)) :
    ∃ front rest back, lists = front ++ (r :: rest) :: back ∧ i = front.length := by
  have hslot : (lists.map List.head?)[i]? = some (some r) := Heads.least?_mem h
  rw [List.getElem?_map, Option.map_eq_some_iff] at hslot
  obtain ⟨l, hl, hhead⟩ := hslot
  obtain ⟨rest, rfl⟩ := List.head?_eq_some_iff.mp hhead
  obtain ⟨hi, hget⟩ := List.getElem?_eq_some_iff.mp hl
  refine ⟨lists.take i, rest, lists.drop (i + 1), ?_, by rw [List.length_take]; omega⟩
  rw [← hget, List.getElem_cons_drop, List.take_append_drop]

theorem Drawn.interleaves (h : Drawn orders lists taken) : Interleaves lists taken := by
  induction h with
  | done h => exact .done (eq_nil_of_least? h)
  | next _ _ ih => exact .next _ ih

variable {cmp : Row → Row → Ordering} [Std.TransCmp cmp]

/-- The least first row of lists in order is not greater than any row, and less than those of lower
lists. -/
theorem least?_spec (ha : Heads.Agrees orders cmp (front ++ (r :: rest) :: back).flatten)
    (ho : ∀ l ∈ front ++ (r :: rest) :: back, InOrder cmp l)
    (h : (headsOf orders (front ++ (r :: rest) :: back)).least? = some (front.length, r)) :
    (∀ s ∈ (front ++ (r :: rest) :: back).flatten, (cmp r s).isLE) ∧
      ∀ s ∈ front.flatten, cmp r s = .lt := by
  set lists := front ++ (r :: rest) :: back with hlists
  have hhead : ∀ s, s ∈ (lists.map List.head?).filterMap id → s ∈ lists.flatten := by
    intro s hs
    obtain ⟨slot, hslot, hs⟩ := List.mem_filterMap.mp hs
    obtain ⟨l, hl, rfl⟩ := List.mem_map.mp hslot
    exact List.mem_flatten_of_mem hl (List.mem_of_mem_head? hs)
  have hagrees : Heads.Agrees orders cmp ((lists.map List.head?).filterMap id) :=
    fun a h b k => ha a (hhead a h) b (hhead b k)
  -- the rows of a list in order are not less than its first row
  have hlist : ∀ l ∈ lists, ∀ s ∈ l, ∃ t, l.head? = some t ∧ (cmp t s).isLE := by
    intro l hl s hs
    cases l with
    | nil => cases hs
    | cons t l =>
      refine ⟨t, rfl, ?_⟩
      rcases List.mem_cons.mp hs with rfl | hs
      · exact Std.ReflCmp.isLE_rfl
      · exact (List.pairwise_cons.mp (ho _ hl)).1 s hs
  have hall := Heads.least?_isLE (h := headsOf orders lists) hagrees h
  have hbefore : ∀ l ∈ front, ∀ t, l.head? = some t → cmp r t = .lt := by
    intro l hl t ht
    refine Heads.least?_first (h := headsOf orders lists) hagrees h t ?_
    have hfront : (lists.map List.head?).take front.length = front.map List.head? := by
      rw [← List.map_take, hlists, List.take_left]
    exact hfront ▸ ht ▸ List.mem_map_of_mem hl
  refine ⟨fun s hs => ?_, fun s hs => ?_⟩
  · obtain ⟨l, hl, hs⟩ := List.mem_flatten.mp hs
    obtain ⟨t, ht, hle⟩ := hlist l hl s hs
    exact Std.TransCmp.isLE_trans
      (hall t (List.mem_filterMap.mpr ⟨_, List.mem_map_of_mem hl, ht⟩)) hle
  · obtain ⟨l, hl, hs⟩ := List.mem_flatten.mp hs
    obtain ⟨t, ht, hle⟩ := hlist l (List.mem_append_left _ hl) s hs
    exact Std.TransCmp.lt_of_lt_of_isLE (hbefore l hl t ht) hle

/-- From lists in order the rows are drawn in order, and equal rows in the order of the lists. -/
theorem Drawn.stable (h : Drawn orders lists taken) (ha : Heads.Agrees orders cmp lists.flatten)
    (ho : ∀ l ∈ lists, InOrder cmp l) :
    InOrder cmp taken ∧ ∀ s, equals cmp s taken = equals cmp s lists.flatten := by
  induction h with
  | done h =>
    rw [List.flatten_eq_nil_iff.mpr (eq_nil_of_least? h)]
    exact ⟨List.Pairwise.nil, fun _ => rfl⟩
  | @next front back r rest taken hleast hdrawn ih =>
    obtain ⟨hall, hlower⟩ := least?_spec ha ho hleast
    have hsub := fun s => (flatten_next_sublist front back r rest).subset (a := s)
    obtain ⟨hin, hequals⟩ := ih (fun a h b k => ha a (hsub a h) b (hsub b k)) (by
      simp only [List.mem_append, List.mem_cons] at ho ⊢
      rintro l (hl | rfl | hl)
      · exact ho l (.inl hl)
      · exact (List.pairwise_cons.mp (ho _ (.inr (.inl rfl)))).2
      · exact ho l (.inr (.inr hl)))
    refine ⟨List.pairwise_cons.mpr ⟨fun s hs => ?_, hin⟩, fun s => ?_⟩
    · exact hall s (hsub s (hdrawn.interleaves.perm.mem_iff.mp hs))
    · have hsplit := hequals s
      rw [List.flatten_append, List.flatten_cons, equals, equals, List.filter_append] at hsplit
      rw [flatten_next, equals, equals, List.filter_append]
      by_cases hs : cmp s r = .eq
      · -- no row of a lower list is equal to the one that is drawn
        have hnone : front.flatten.filter (fun t => cmp s t = .eq) = [] := by
          refine List.filter_eq_nil_iff.mpr fun t ht => ?_
          rw [Std.TransCmp.congr_left hs, hlower t ht]
          decide
        rw [hnone, List.nil_append] at hsplit ⊢
        rw [List.filter_cons_of_pos (by simpa using hs), List.filter_cons_of_pos (by simpa using hs),
          hsplit]
      · rw [List.filter_cons_of_neg (by simpa using hs), List.filter_cons_of_neg (by simpa using hs),
          hsplit]

end Drawing

theorem Cursor.next_rows {c : Cursor} {rows : List Row} (h : c.ahead = (rows, none)) :
    ∃ d, c.next = .ok (rows.head?, d) ∧ d.ahead = (rows.tail, none) := by
  have hnext : c.next.map (Prod.map id ahead) = .ok (rows.head?, (rows.tail, none)) := by
    rw [next_ahead, h]
    cases rows <;> rfl
  obtain ⟨⟨head, d⟩, hd, heq⟩ := map_ok hnext
  obtain ⟨rfl, hahead⟩ := Prod.mk.inj heq
  exact ⟨d, hd, hahead⟩

theorem firstRows_heads {cursors : List Cursor} {lists : List (List Row)}
    (h : cursors.map ahead = lists.map fun l => (l, none)) :
    ∃ rest, firstRows cursors = .ok (lists.map List.head?, rest) ∧
      rest.map ahead = lists.map fun l => (l.tail, none) := by
  induction lists generalizing cursors with
  | nil =>
    obtain rfl := List.map_eq_nil_iff.mp h
    exact ⟨[], rfl, rfl⟩
  | cons l lists ih =>
    obtain ⟨c, cursors, rfl, hc, hcursors⟩ := List.map_eq_cons_iff.mp h
    obtain ⟨d, hd, hl⟩ := c.next_rows hc
    obtain ⟨rest, hrest, hlists⟩ := ih hcursors
    refine ⟨d :: rest, ?_, by rw [List.map_cons, List.map_cons, hl, hlists]⟩
    rw [firstRows, hd, ok_bind, hrest]
    rfl

/-- The loop of a merge over inputs that end well and fit draws their rows. The heads are the first rows
of the lists, and the cursors stand behind them. -/
theorem mergeRows_drawn {columns fuel : Nat} (orders : List Direction) {lists : List (List Row)}
    {cursors : List Cursor} (hcursors : cursors.map ahead = lists.map fun l => (l.tail, none))
    (hwidths : ∀ r ∈ lists.flatten, r.values.length = columns) (hfuel : lists.flatten.length ≤ fuel) :
    ∃ taken, Drawn orders lists taken ∧
      mergeRows columns fuel (headsOf orders lists) cursors = (taken.map Row.withoutKeys, none) := by
  induction fuel generalizing lists cursors with
  | zero =>
    refine ⟨[], .done ?_, rfl⟩
    rcases hl : (headsOf orders lists).least? with _ | ⟨i, r⟩
    · rfl
    · obtain ⟨front, rest, back, rfl, _⟩ := exists_of_least? hl
      simp at hfuel
  | succ fuel ih =>
    rw [mergeRows]
    rcases hl : (headsOf orders lists).least? with _ | ⟨i, r⟩
    · exact ⟨[], .done hl, rfl⟩
    obtain ⟨front, rest, back, rfl, rfl⟩ := exists_of_least? hl
    obtain ⟨c, hc, hahead⟩ : ∃ c, cursors[front.length]? = some c ∧ c.ahead = (rest, none) := by
      have hget := congrArg (·[front.length]?) hcursors
      simpa using hget
    obtain ⟨d, hnext, hd⟩ := c.next_rows hahead
    have hfit : fitting columns r.withoutKeys = .ok r.withoutKeys := if_pos (hwidths r (by simp))
    have hheads : (headsOf orders (front ++ (r :: rest) :: back)).set front.length rest.head? =
        headsOf orders (front ++ rest :: back) := by
      simp [headsOf, Heads.set]
    have hrest : (cursors.set front.length d).map ahead =
        (front ++ rest :: back).map fun l => (l.tail, none) := by
      rw [List.map_set, hcursors, hd]
      simp
    obtain ⟨taken, hdrawn, hrows⟩ := ih hrest
      (fun s hs => hwidths s ((flatten_next_sublist front back r rest).subset hs))
      (by simp at hfuel ⊢; omega)
    refine ⟨r :: taken, .next hl hdrawn, ?_⟩
    simp only [hc, hnext, ok_bind, hfit, pure, Except.pure, hheads, hrows, List.map_cons]

section Run

variable {items : List SortItem} {inputs : List Feed} {schema : Schema}

theorem mergeSchema_eq_ok (hkeys : schema.keys.length = items.length)
    (hinputs : ∀ f ∈ inputs, f.Ended schema) (hne : inputs ≠ []) :
    mergeSchema items none inputs = .ok (some schema) := by
  have hmore : ∀ fs : List Feed, (∀ f ∈ fs, f.Ended schema) →
      mergeSchema items (some schema) fs = .ok (some schema) := by
    intro fs hfs
    induction fs with
    | nil => rfl
    | cons f fs ih =>
      obtain ⟨hf, hfs⟩ := List.forall_mem_cons.mp hfs
      rw [mergeSchema, hf.schema_eq, ok_bind, if_neg (not_not.mpr hkeys)]
      exact (if_pos rfl).trans (ih hfs)
  cases inputs with
  | nil => exact absurd rfl hne
  | cons f fs =>
    obtain ⟨hf, hfs⟩ := List.forall_mem_cons.mp hinputs
    rw [mergeSchema, hf.schema_eq, ok_bind, if_neg (not_not.mpr hkeys)]
    exact hmore fs hfs

/-- What a merge of inputs that end well under one schema writes: the rows that are drawn. -/
theorem runMerge_drawn (batchRows : Nat) (hkeys : schema.keys.length = items.length)
    (hinputs : ∀ f ∈ inputs, f.Ended schema ∧ f.Under schema) (hne : inputs ≠ []) :
    ∃ taken, Drawn (directionsOf items) (inputs.map fun f => rowsOf f.splits) taken ∧
      runMerge items batchRows inputs =
        { schema := some schema.withoutKeys
          splits := StreamWriter.batches
            { schema := schema.withoutKeys, rows := taken.map Row.withoutKeys } (max batchRows 1)
          outcome := .ok ⟨taken.length, taken.length⟩ } := by
  have hcursors : (inputs.map Cursor.ofFeed).map ahead =
      (inputs.map fun f => rowsOf f.splits).map fun l => (l, none) := by
    rw [List.map_map, List.map_map]
    exact List.map_congr_left fun f hf => Prod.ext rfl (hinputs f hf).1.fault_eq
  obtain ⟨cursors, hfirst, hrest⟩ := firstRows_heads hcursors
  have hrows : (inputs.map fun f => rowsOf f.splits).flatten = Feed.rows inputs := by
    rw [Feed.rows, List.flatMap_def]
  have hwidths : ∀ r ∈ (inputs.map fun f => rowsOf f.splits).flatten,
      r.values.length = schema.withoutKeys.columns.length := by
    intro r hr
    rw [hrows] at hr
    obtain ⟨f, hf, hr⟩ := List.mem_flatMap.mp hr
    obtain ⟨s, hs, hr⟩ := List.mem_flatMap.mp hr
    have hunder := (hinputs f hf).2.splits s hs
    exact hunder.schema_eq ▸ (hunder.wellFormed r hr).1
  have hcount : countRows (inputs.flatMap (·.splits)) =
      (inputs.map fun f => rowsOf f.splits).flatten.length := by
    rw [hrows, ← length_rowsOf, rowsOf, List.flatMap_assoc]
    rfl
  obtain ⟨taken, hdrawn, hmerge⟩ := mergeRows_drawn (directionsOf items) hrest hwidths
    (Nat.le_of_eq hcount.symm)
  refine ⟨taken, hdrawn, ?_⟩
  have hheads : (⟨(inputs.map fun f => rowsOf f.splits).map List.head?, directionsOf items⟩ : Heads) =
      headsOf (directionsOf items) (inputs.map fun f => rowsOf f.splits) := rfl
  simp only [runMerge, mergeSchema_eq_ok hkeys (fun f hf => (hinputs f hf).1) hne, mergeInto, hfirst,
    hheads, hmerge, List.length_map]

end Run

/-- A merge of inputs under one schema with a key for each sort item writes all their rows, without keys
and in batches that are neither empty nor too large; it fails only if there is no input. Each input keeps
its order. If the inputs are in order and no key position mixes whole numbers with floats, this is the
stable sort of the inputs one after another. -/
theorem merge_stable (w : Workplace) (arrival : List Nat) {items : List SortItem} {schema : Schema}
    {inputs : List Feed} (hkeys : schema.keys.length = items.length)
    (hinputs : ∀ f ∈ inputs, f.Ended schema ∧ f.Under schema) :
    ((Operator.merge items).run w arrival inputs).outcome =
        (if inputs = [] then .error (.execution .noMergeInput)
          else .ok ⟨(Feed.rows inputs).length, (Feed.rows inputs).length⟩) ∧
      (∀ s ∈ ((Operator.merge items).run w arrival inputs).splits,
        s.schema = schema.withoutKeys ∧ 0 < s.rowCount ∧ s.rowCount ≤ max w.batchRows 1) ∧
      ∃ taken, rowsOf ((Operator.merge items).run w arrival inputs).splits = taken.map Row.withoutKeys ∧
        taken.Perm (Feed.rows inputs) ∧ Interleaves (inputs.map fun f => rowsOf f.splits) taken ∧
        (∀ f ∈ inputs, (rowsOf f.splits).Sublist taken) ∧
        ((∀ f ∈ inputs, InOrder (compareKeys (directionsOf items)) (rowsOf f.splits)) →
          (∀ a ∈ Feed.rows inputs, ∀ b ∈ Feed.rows inputs, a.Unmixed b) →
          taken = (Feed.rows inputs).mergeSort fun a b => (compareKeys (directionsOf items) a b).isLE) := by
  by_cases hne : inputs = []
  · subst hne
    have hrun : (Operator.merge items).run w arrival [] = .failed (.execution .noMergeInput) := rfl
    have hrows : Feed.rows [] = [] := rfl
    rw [hrun, hrows, List.mergeSort_nil]
    exact ⟨rfl, List.forall_mem_nil _, [], rfl, .refl _, .done (List.forall_mem_nil _),
      List.forall_mem_nil _, fun _ _ => rfl⟩
  obtain ⟨taken, hdrawn, hrun⟩ := runMerge_drawn w.batchRows hkeys hinputs hne
  have hrun : (Operator.merge items).run w arrival inputs = _ := hrun
  have hrows : (inputs.map fun f => rowsOf f.splits).flatten = Feed.rows inputs := by
    rw [Feed.rows, List.flatMap_def]
  have hperm : taken.Perm (Feed.rows inputs) := hrows ▸ hdrawn.interleaves.perm
  have hwritten := StreamWriter.rowsOf_batches
    { schema := schema.withoutKeys, rows := taken.map Row.withoutKeys }
    (Nat.lt_of_lt_of_le Nat.one_pos (Nat.le_max_right w.batchRows 1))
  rw [hrun, if_neg hne, ← hperm.length_eq]
  refine ⟨rfl, fun s hs => ⟨?_, StreamWriter.rowCount_batches hs⟩, taken, hwritten, hperm,
    hdrawn.interleaves, fun f hf => hdrawn.interleaves.sublist _ (List.mem_map_of_mem hf),
    fun horder hmix => ?_⟩
  · obtain ⟨rows, _, rfl⟩ := List.mem_map.mp hs
    rfl
  · have hagrees : Heads.Agrees (directionsOf items) (placedKeys (directionsOf items))
        (inputs.map fun f => rowsOf f.splits).flatten := fun a ha b hb =>
      compareKeys_eq (hmix a (hrows ▸ ha) b (hrows ▸ hb)) _
    have hlists : ∀ l ∈ inputs.map fun f => rowsOf f.splits,
        InOrder (placedKeys (directionsOf items)) l := by
      refine List.forall_mem_map.mpr fun f hf => List.Pairwise.imp_of_mem ?_ (horder f hf)
      intro a b ha hb hle
      rwa [compareKeys_eq (hmix a (List.mem_flatMap.mpr ⟨f, hf, ha⟩) b (List.mem_flatMap.mpr ⟨f, hf, hb⟩))]
        at hle
    obtain ⟨hinorder, hequals⟩ := hdrawn.stable hagrees hlists
    rw [← hrows]
    exact hinorder.eq_mergeSort hequals hagrees

section Ties

def rankedText (text : String) (n : Int64) : Row := Row.withKeys [.text text] [some (.int64 n)]

def rankedTexts : Schema := Schema.addKey { columns := [⟨"t", .utf8⟩] } .int64

def rankedFeed (splits : List (List (String × Int64))) : Feed :=
  .ofSplits rankedTexts (splits.map fun texts =>
    { schema := rankedTexts, rows := texts.map fun (text, n) => rankedText text n })

theorem rankedFeed_ended (splits : List (List (String × Int64))) :
    (rankedFeed splits).Ended rankedTexts ∧ (rankedFeed splits).Under rankedTexts := by
  refine ⟨⟨rfl, rfl⟩, fun s h => (Except.ok.inj h).symm, List.forall_mem_map.mpr fun texts _ => ⟨rfl, ?_⟩⟩
  exact List.forall_mem_map.mpr fun _ _ => ⟨rfl, rfl, rfl⟩

theorem rankedText_unmixed (s t : String) (m n : Int64) :
    (rankedText s m).Unmixed (rankedText t n) := by
  intro k x y hx hy hmixed
  have hwhole : ∀ (text : String) (i : Int64) (v : Value), (rankedText text i).key? k = some v →
      v = .int64 i := by
    intro text i v hv
    rw [rankedText, Row.key?_withKeys] at hv
    cases k with
    | zero => exact (Option.some.inj hv).symm
    | succ k => cases hv
  rw [hwhole s m x hx, hwhole t n y hy] at hmixed
  simp [Value.Mixed, Value.isReal] at hmixed

/-- Two inputs with equal keys, cut between them and with an empty split. -/
def rankedFeeds : List Feed :=
  [rankedFeed [[("a", 1), ("b", 2)], [("c", 2)]], rankedFeed [[("d", 1)], [], [("e", 2)]]]

theorem merge_stable_ties :
    ((Operator.merge byNumber).run (emptyWorkplace 2) [] rankedFeeds).outcome = .ok ⟨5, 5⟩ ∧
      rowsOf ((Operator.merge byNumber).run (emptyWorkplace 2) [] rankedFeeds).splits =
        ((Feed.rows rankedFeeds).mergeSort fun a b => (compareKeys [.ascending] a b).isLE).map
          Row.withoutKeys ∧
      (rowsOf ((Operator.merge byNumber).run (emptyWorkplace 2) [] rankedFeeds).splits).map (·.values) =
        [[.text "a"], [.text "d"], [.text "b"], [.text "c"], [.text "e"]] := by
  have hinputs : ∀ f ∈ rankedFeeds, f.Ended rankedTexts ∧ f.Under rankedTexts :=
    List.forall_mem_cons.mpr ⟨rankedFeed_ended _, List.forall_mem_singleton.mpr (rankedFeed_ended _)⟩
  have hkeys : rankedTexts.keys.length = byNumber.length := rfl
  obtain ⟨houtcome, _, taken, hrows, _, _, _, hsorted⟩ :=
    merge_stable (emptyWorkplace 2) [] hkeys hinputs
  refine ⟨houtcome, ?_, by decide +kernel⟩
  rw [hrows, hsorted ?_ ?_]
  · rfl
  · unfold InOrder
    decide +kernel
  · have hform : Feed.rows rankedFeeds =
        [("a", 1), ("b", 2), ("c", 2), ("d", 1), ("e", 2)].map fun (text, n) => rankedText text n := rfl
    rw [hform]
    exact List.forall_mem_map.mpr fun _ _ => List.forall_mem_map.mpr fun _ _ =>
      rankedText_unmixed _ _ _ _

end Ties

end QueryCluster
