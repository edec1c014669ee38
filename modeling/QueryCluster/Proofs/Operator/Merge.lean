import Mathlib.Data.List.Basic
import QueryCluster.Operator.Sort
import QueryCluster.Proofs.Operator.Feeds
import QueryCluster.Proofs.Outcome
import QueryCluster.Proofs.Split.Sorting

/-!
# What a merge writes

A merge that meets no fault writes every row of its inputs once, without keys. Each of its lanes is
a head and what is left of the input behind it; a step moves one row from the lanes to the output
and leaves the other rows where they are. If the lanes are in order, so is the output: the least
head is not greater than any row that is left.
-/
namespace QueryCluster

open Split (InOrder)

namespace Heads

variable {orders : List Direction} {cmp : Row → Row → Ordering}

theorem minFrom_eq_none {i : Nat} {best : Option (Nat × Row)} {slots : List (Option Row)}
    (h : minFrom orders i best slots = none) : best = none ∧ ∀ s ∈ slots, s = none := by
  fun_induction minFrom orders i best slots with
  | case1 i best => simp [h]
  | case2 i best rest ih =>
    obtain ⟨hb, hs⟩ := ih h
    exact ⟨hb, by simpa using hs⟩
  | case3 i r rest ih => exact absurd (ih h).1 (by simp)
  | case4 i b s r rest ih =>
    have hb := (ih h).1
    split at hb <;> cases hb

/-- The row found is the best so far or stands at the place given for it. -/
theorem minFrom_mem {i j : Nat} {best : Option (Nat × Row)} {slots : List (Option Row)} {r : Row}
    (h : minFrom orders i best slots = some (j, r)) :
    best = some (j, r) ∨ ∃ k, j = i + k ∧ slots[k]? = some (some r) := by
  fun_induction minFrom orders i best slots with
  | case1 i best => exact .inl h
  | case2 i best rest ih =>
    rcases ih h with hb | ⟨k, rfl, hk⟩
    · exact .inl hb
    · exact .inr ⟨k + 1, by omega, by simpa using hk⟩
  | case3 i t rest ih =>
    rcases ih h with hb | ⟨k, rfl, hk⟩
    · cases hb
      exact .inr ⟨0, rfl, rfl⟩
    · exact .inr ⟨k + 1, by omega, by simpa using hk⟩
  | case4 i b s t rest ih =>
    rcases ih h with hb | ⟨k, rfl, hk⟩
    · split at hb
      · cases hb
        exact .inr ⟨0, rfl, rfl⟩
      · exact .inl hb
    · exact .inr ⟨k + 1, by omega, by simpa using hk⟩

/-- Rows on which the comparison of keys is a given one. -/
def Agrees (orders : List Direction) (cmp : Row → Row → Ordering) (rows : List Row) : Prop :=
  ∀ a ∈ rows, ∀ b ∈ rows, compareKeys orders a b = cmp a b

/-- The head that is kept of two is at most as great as either. -/
theorem exists_kept [Std.TransCmp cmp] (i b : Nat) {s t : Row} (hts : compareKeys orders t s = cmp t s) :
    ∃ p : Nat × Row, (if compareKeys orders t s = .lt then some (i, t) else some (b, s)) = some p ∧
      (p = (i, t) ∧ cmp t s = .lt ∨ p = (b, s)) ∧ (cmp p.2 s).isLE ∧ (cmp p.2 t).isLE := by
  by_cases hlt : cmp t s = .lt
  · refine ⟨(i, t), if_pos (hts.trans hlt), .inl ⟨rfl, hlt⟩, ?_, Std.ReflCmp.isLE_rfl⟩
    rw [hlt]
    rfl
  · refine ⟨(b, s), if_neg (hts ▸ hlt), .inr rfl, Std.ReflCmp.isLE_rfl, ?_⟩
    exact Std.OrientedCmp.isLE_of_isGE (Ordering.isGE_iff_ne_lt.mpr hlt)

theorem Agrees.kept {p : Nat × Row} {i b : Nat} {s t : Row} {rows : List Row} {P : Prop}
    (ha : Agrees orders cmp (s :: t :: rows)) (hp : p = (i, t) ∧ P ∨ p = (b, s)) :
    Agrees orders cmp (p.2 :: rows) := by
  have hsub : ∀ x ∈ p.2 :: rows, x ∈ s :: t :: rows := by
    rcases hp with ⟨rfl, _⟩ | rfl
    · exact fun x hx => List.mem_cons_of_mem s hx
    · intro x hx
      rcases List.mem_cons.mp hx with rfl | hx
      · exact List.mem_cons_self
      · exact List.mem_cons_of_mem s (List.mem_cons_of_mem t hx)
  exact fun x hx y hy => ha x (hsub x hx) y (hsub y hy)

theorem minFrom_isLE [Std.TransCmp cmp] {i j : Nat} {best : Option (Nat × Row)}
    {slots : List (Option Row)} {r : Row}
    (ha : Agrees orders cmp ((best.map Prod.snd).toList ++ slots.filterMap id))
    (h : minFrom orders i best slots = some (j, r)) :
    ∀ s ∈ (best.map Prod.snd).toList ++ slots.filterMap id, (cmp r s).isLE := by
  fun_induction minFrom orders i best slots with
  | case1 i best =>
    subst h
    intro s hs
    have hsr : s = r := by simpa using hs
    rw [hsr]
    exact Std.ReflCmp.isLE_rfl
  | case2 i best rest ih =>
    have hskip : (none :: rest).filterMap id = rest.filterMap (id : Option Row → Option Row) := rfl
    rw [hskip] at ha ⊢
    exact ih ha h
  | case3 i t rest ih => exact ih ha h
  | case4 i b s t rest ih =>
    obtain ⟨p, hp, hcases, hs, ht⟩ := exists_kept i b (ha t (by simp) s (by simp))
    rw [hp] at ih h
    have hle : ∀ x ∈ p.2 :: rest.filterMap id, (cmp r x).isLE := ih (Agrees.kept ha hcases) h
    have hrp := hle p.2 List.mem_cons_self
    intro x hx
    have hx : x = s ∨ x = t ∨ x ∈ rest.filterMap id := by simpa using hx
    rcases hx with rfl | rfl | hx
    · exact Std.TransCmp.isLE_trans hrp hs
    · exact Std.TransCmp.isLE_trans hrp ht
    · exact hle x (List.mem_cons_of_mem _ hx)

variable {h : Heads}

theorem least?_eq_none (hl : h.least? = none) : ∀ s ∈ h.slots, s = none :=
  (minFrom_eq_none hl).2

theorem least?_mem {i : Nat} {r : Row} (hl : h.least? = some (i, r)) :
    h.slots[i]? = some (some r) := by
  rcases minFrom_mem hl with hb | ⟨k, rfl, hk⟩
  · cases hb
  · simpa using hk

theorem least?_isLE [Std.TransCmp cmp] {i : Nat} {r : Row}
    (ha : Agrees h.orders cmp (h.slots.filterMap id)) (hl : h.least? = some (i, r)) :
    ∀ s ∈ h.slots.filterMap id, (cmp r s).isLE := by
  refine minFrom_isLE ?_ hl
  exact ha

end Heads

namespace Cursor

/-- The rows a cursor has still to give. -/
def rest (c : Cursor) : List Row := c.rows ++ rowsOf c.splits

theorem nextFrom_ok {fault : Option OperatorError} {splits : List Split} {head : Option Row}
    {c : Cursor} (h : nextFrom fault splits = .ok (head, c)) :
    rowsOf splits = head.toList ++ c.rest ∧ c.fault = fault ∧
      (head = none → c.rest = [] ∧ fault = none) := by
  induction splits with
  | nil =>
    cases fault with
    | some e => cases h
    | none =>
      cases h
      exact ⟨rfl, rfl, fun _ => ⟨rfl, rfl⟩⟩
  | cons s splits ih =>
    rw [nextFrom] at h
    rcases hs : s.rows with _ | ⟨r, rows⟩
    · rw [hs] at h
      rw [rowsOf_cons, hs]
      exact ih h
    · rw [hs] at h
      cases h
      refine ⟨?_, rfl, fun hn => by cases hn⟩
      rw [rowsOf_cons, hs]
      rfl

theorem next_ok {c d : Cursor} {head : Option Row} (h : c.next = .ok (head, d)) :
    c.rest = head.toList ++ d.rest ∧ d.fault = c.fault ∧
      (head = none → d.rest = [] ∧ c.fault = none) := by
  rw [next] at h
  rcases hc : c.rows with _ | ⟨r, rows⟩
  · rw [hc] at h
    rw [rest, hc]
    exact nextFrom_ok h
  · rw [hc] at h
    cases h
    refine ⟨?_, rfl, fun hn => by cases hn⟩
    rw [rest, hc]
    rfl

end Cursor

/-- An input of a merge: its head, and its cursor behind the head. -/
abbrev Lane := Option Row × Cursor

namespace Lane

def rows (l : Lane) : List Row := l.1.toList ++ l.2.rest

/-- A lane without a head has ended well. -/
def Settled (l : Lane) : Prop := l.1 = none → l.2.rest = [] ∧ l.2.fault = none

theorem settled_of_next {c d : Cursor} {head : Option Row} (h : c.next = .ok (head, d)) :
    Settled (head, d) := by
  intro hn
  obtain ⟨_, hfault, hend⟩ := Cursor.next_ok h
  exact ⟨(hend hn).1, hfault.trans (hend hn).2⟩

end Lane

theorem zip_set {slots : List (Option Row)} {cursors : List Cursor} (i : Nat) (head : Option Row)
    (c : Cursor) : (slots.set i head).zip (cursors.set i c) = (slots.zip cursors).set i (head, c) := by
  induction slots generalizing cursors i with
  | nil => simp
  | cons s slots ih =>
    cases cursors with
    | nil => simp
    | cons d cursors =>
      cases i with
      | zero => rfl
      | succ i => simp [ih]

/-- The lanes of a merge in progress. -/
def lanes (heads : Heads) (cursors : List Cursor) : List Lane := heads.slots.zip cursors

theorem mem_lanes {heads : Heads} {cursors : List Cursor} {i : Nat} {head : Option Row} {c : Cursor}
    (hs : heads.slots[i]? = some head) (hc : cursors[i]? = some c) :
    (lanes heads cursors)[i]? = some (head, c) := by
  rw [lanes, List.getElem?_zip_eq_some]
  exact ⟨hs, hc⟩

/-- What a merge needs of its lanes: one cursor for each head, and an end for each empty head. -/
structure Merging (heads : Heads) (cursors : List Cursor) : Prop where
  lengths : heads.slots.length = cursors.length
  settled : ∀ l ∈ lanes heads cursors, l.Settled

/-- A step that goes well, with the lane that moves on. -/
theorem Merging.advance {heads : Heads} {cursors : List Cursor} {i : Nat} {r : Row} {c d : Cursor}
    {head : Option Row} (hm : Merging heads cursors) (hl : heads.least? = some (i, r))
    (hc : cursors[i]? = some c) (hn : c.next = .ok (head, d)) :
    Merging (heads.set i head) (cursors.set i d) ∧
      ((lanes heads cursors).flatMap Lane.rows).Perm
        (r :: (lanes (heads.set i head) (cursors.set i d)).flatMap Lane.rows) ∧
      ∀ l ∈ lanes (heads.set i head) (cursors.set i d),
        l ∈ lanes heads cursors ∨ (l = (head, d) ∧ c.rest = l.rows) := by
  have hset : lanes (heads.set i head) (cursors.set i d) = (lanes heads cursors).set i (head, d) :=
    zip_set i head d
  have hlane := mem_lanes (Heads.least?_mem hl) hc
  have hrest : c.rest = Lane.rows (head, d) := (Cursor.next_ok hn).1
  rw [hset]
  refine ⟨⟨by simp [Heads.set, hm.lengths], fun l h => ?_⟩, ?_, fun l h => ?_⟩
  · rw [hset] at h
    rcases List.mem_or_eq_of_mem_set h with h | rfl
    · exact hm.settled l h
    · exact Lane.settled_of_next hn
  · refine flatMap_set_perm hlane ?_
    rw [← hrest]
    rfl
  · rcases List.mem_or_eq_of_mem_set h with h | rfl
    · exact .inl h
    · exact .inr ⟨rfl, hrest⟩

theorem Merging.rows_eq_nil {heads : Heads} {cursors : List Cursor} (hm : Merging heads cursors)
    (hl : heads.least? = none) : (lanes heads cursors).flatMap Lane.rows = [] ∧
      ∀ c ∈ cursors, c.fault = none := by
  have hnone : ∀ l ∈ lanes heads cursors, l.1 = none := fun l h =>
    Heads.least?_eq_none hl l.1 (List.of_mem_zip h).1
  refine ⟨List.flatMap_eq_nil_iff.mpr fun l h => ?_, fun c h => ?_⟩
  · obtain ⟨hr, _⟩ := hm.settled l h (hnone l h)
    simp [Lane.rows, hnone l h, hr]
  · obtain ⟨i, hi, rfl⟩ := List.mem_iff_getElem.mp h
    have hslot : i < heads.slots.length := hm.lengths ▸ hi
    have hmem : (heads.slots[i], cursors[i]) ∈ lanes heads cursors := List.mem_of_getElem?
      (mem_lanes (List.getElem?_eq_getElem hslot) (List.getElem?_eq_getElem hi))
    exact (hm.settled _ hmem (hnone _ hmem)).2

/-- The least head is not greater than any row of lanes in order. -/
theorem least_isLE_rows {heads : Heads} {cursors : List Cursor} {cmp : Row → Row → Ordering}
    [Std.TransCmp cmp] (hm : Merging heads cursors)
    (ha : Heads.Agrees heads.orders cmp ((lanes heads cursors).flatMap Lane.rows))
    (ho : ∀ l ∈ lanes heads cursors, InOrder cmp l.rows) {i : Nat} {r : Row}
    (hl : heads.least? = some (i, r)) :
    ∀ s ∈ (lanes heads cursors).flatMap Lane.rows, (cmp r s).isLE := by
  have hheads : ∀ s ∈ heads.slots.filterMap id, s ∈ (lanes heads cursors).flatMap Lane.rows := by
    intro s hs
    obtain ⟨slot, hslot, hs⟩ := List.mem_filterMap.mp hs
    obtain ⟨k, hk, rfl⟩ := List.mem_iff_getElem.mp hslot
    have hck : k < cursors.length := hm.lengths ▸ hk
    refine List.mem_flatMap.mpr ⟨(heads.slots[k], cursors[k]), ?_, ?_⟩
    · exact List.mem_of_getElem?
        (mem_lanes (List.getElem?_eq_getElem hk) (List.getElem?_eq_getElem hck))
    · have hs : heads.slots[k] = some s := hs
      simp [Lane.rows, hs]
  have hleast := Heads.least?_isLE (fun a h b k => ha a (hheads a h) b (hheads b k)) hl
  intro s hs
  obtain ⟨l, hlane, hs⟩ := List.mem_flatMap.mp hs
  rcases hhead : l.1 with _ | t
  · obtain ⟨hrest, _⟩ := hm.settled l hlane hhead
    simp [Lane.rows, hhead, hrest] at hs
  · have ht : (cmp r t).isLE :=
      hleast t (List.mem_filterMap.mpr ⟨l.1, (List.of_mem_zip hlane).1, hhead⟩)
    have horder := ho l hlane
    rw [Lane.rows, hhead] at hs horder
    rcases List.mem_cons.mp hs with rfl | hs
    · exact ht
    · exact Std.TransCmp.isLE_trans ht ((List.pairwise_cons.mp horder).1 s hs)

theorem Merging.least?_eq_none {heads : Heads} {cursors : List Cursor} (hm : Merging heads cursors)
    (hnil : (lanes heads cursors).flatMap Lane.rows = []) : heads.least? = none := by
  rcases hl : heads.least? with _ | ⟨i, r⟩
  · rfl
  · have hi := Heads.least?_mem hl
    have hc : i < cursors.length := hm.lengths ▸ (List.getElem?_eq_some_iff.mp hi).1
    have hmem := List.mem_of_getElem? (mem_lanes hi (List.getElem?_eq_getElem hc))
    cases (List.flatMap_eq_nil_iff.mp hnil) _ hmem

/-- A step without a fault: there is no head, or the least one is written and its lane moves on. -/
theorem mergeRows_succ_ok {columns fuel : Nat} {heads : Heads} {cursors : List Cursor}
    (hm : Merging heads cursors) (hok : (mergeRows columns (fuel + 1) heads cursors).2 = none) :
    (heads.least? = none ∧ (mergeRows columns (fuel + 1) heads cursors).1 = []) ∨
      ∃ i r c head d, heads.least? = some (i, r) ∧ cursors[i]? = some c ∧ c.next = .ok (head, d) ∧
        r.values.length = columns ∧
        (mergeRows columns fuel (heads.set i head) (cursors.set i d)).2 = none ∧
        (mergeRows columns (fuel + 1) heads cursors).1 =
          r.withoutKeys :: (mergeRows columns fuel (heads.set i head) (cursors.set i d)).1 := by
  rw [mergeRows] at hok ⊢
  rcases hl : heads.least? with _ | ⟨i, r⟩
  · exact .inl ⟨rfl, rfl⟩
  have hi : i < cursors.length :=
    hm.lengths ▸ (List.getElem?_eq_some_iff.mp (Heads.least?_mem hl)).1
  have hc : cursors[i]? = some cursors[i] := List.getElem?_eq_getElem hi
  generalize cursors[i] = c at hc
  simp only [hl, hc] at hok ⊢
  rcases hn : c.next with e | ⟨head, d⟩
  · rw [hn] at hok
    cases hok
  rw [hn] at hok
  by_cases hwidth : r.values.length = columns
  · have hfit : fitting columns r.withoutKeys = .ok r.withoutKeys := if_pos hwidth
    simp only [ok_bind, hfit, pure, Except.pure] at hok ⊢
    exact .inr ⟨i, r, c, head, d, rfl, hc, hn, hwidth, hok, rfl⟩
  · have hfit : fitting columns r.withoutKeys = .error _ := if_neg hwidth
    rw [ok_bind, hfit] at hok
    cases hok

/-- A cursor that moves on keeps its fault. -/
theorem unfaulted_of_set {cursors : List Cursor} {i : Nat} {c d : Cursor} (hc : cursors[i]? = some c)
    (hd : d.fault = c.fault) (h : ∀ x ∈ cursors.set i d, x.fault = none) :
    ∀ x ∈ cursors, x.fault = none := by
  have hsame : (cursors.set i d).map Cursor.fault = cursors.map Cursor.fault := by
    obtain ⟨hi, rfl⟩ := List.getElem?_eq_some_iff.mp hc
    rw [List.map_set, hd, ← List.getElem_map Cursor.fault (h := by simpa using hi), List.set_getElem_self]
  intro x hx
  have hmem : x.fault ∈ (cursors.set i d).map Cursor.fault := hsame ▸ List.mem_map_of_mem hx
  obtain ⟨y, hy, hyx⟩ := List.mem_map.mp hmem
  exact hyx ▸ h y hy

/-- A merge without faults takes all rows of its lanes, in order if the lanes are, and each has a
value for every column. -/
theorem mergeRows_spec {columns fuel : Nat} {heads : Heads} {cursors : List Cursor}
    (hm : Merging heads cursors) (hf : ((lanes heads cursors).flatMap Lane.rows).length ≤ fuel)
    (hok : (mergeRows columns fuel heads cursors).2 = none) :
    ∃ taken, (mergeRows columns fuel heads cursors).1 = taken.map Row.withoutKeys ∧
      (∀ r ∈ taken, r.values.length = columns) ∧
      taken.Perm ((lanes heads cursors).flatMap Lane.rows) ∧ (∀ c ∈ cursors, c.fault = none) ∧
      ∀ (cmp : Row → Row → Ordering) [Std.TransCmp cmp],
        Heads.Agrees heads.orders cmp ((lanes heads cursors).flatMap Lane.rows) →
        (∀ l ∈ lanes heads cursors, InOrder cmp l.rows) → InOrder cmp taken := by
  induction fuel generalizing heads cursors with
  | zero =>
    have hnil := List.length_eq_zero_iff.mp (Nat.le_zero.mp hf)
    exact ⟨[], rfl, by simp, by rw [hnil], (hm.rows_eq_nil (hm.least?_eq_none hnil)).2,
      fun _ _ _ _ => List.Pairwise.nil⟩
  | succ fuel ih =>
    rcases mergeRows_succ_ok hm hok with
      ⟨hl, hrows⟩ | ⟨i, r, c, head, d, hl, hc, hn, hwidth, hok, hrows⟩
    · obtain ⟨hnil, hfault⟩ := hm.rows_eq_nil hl
      exact ⟨[], hrows, by simp, by rw [hnil], hfault, fun _ _ _ _ => List.Pairwise.nil⟩
    obtain ⟨hm', hperm, hlanes⟩ := hm.advance hl hc hn
    have hf' : ((lanes (heads.set i head) (cursors.set i d)).flatMap Lane.rows).length ≤ fuel := by
      have := hperm.length_eq
      rw [List.length_cons] at this
      omega
    obtain ⟨taken, htaken, hwidths, hp, hfaults, horder⟩ := ih hm' hf' hok
    refine ⟨r :: taken, by rw [hrows, htaken, List.map_cons],
      List.forall_mem_cons.mpr ⟨hwidth, hwidths⟩, (hp.cons r).trans hperm.symm,
      unfaulted_of_set hc (Cursor.next_ok hn).2.1 hfaults, fun cmp _ ha ho => ?_⟩
    have hsub : ∀ s ∈ (lanes (heads.set i head) (cursors.set i d)).flatMap Lane.rows,
        s ∈ (lanes heads cursors).flatMap Lane.rows := fun s hs =>
      hperm.mem_iff.mpr (List.mem_cons_of_mem r hs)
    refine List.pairwise_cons.mpr ⟨fun s hs => ?_, horder cmp ?_ ?_⟩
    · exact least_isLE_rows hm ha ho hl s (hsub s (hp.mem_iff.mp hs))
    · exact fun a h b k => ha a (hsub a h) b (hsub b k)
    · intro l hlane
      rcases hlanes l hlane with hold | ⟨_, hrest⟩
      · exact ho l hold
      · have := ho _ (List.mem_of_getElem? (mem_lanes (Heads.least?_mem hl) hc))
        rw [← hrest]
        exact (List.pairwise_cons.mp this).2

theorem mergeSchema_ok {items : List SortItem} {first : Option Schema} {feeds : List Feed}
    {schema : Schema} (h : mergeSchema items first feeds = .ok (some schema)) :
    (∀ s ∈ first, s = schema) ∧
      ∀ f ∈ feeds, f.schema = .ok schema ∧ schema.keys.length = items.length := by
  induction feeds generalizing first with
  | nil =>
    cases h
    simp
  | cons f feeds ih =>
    rw [mergeSchema] at h
    obtain ⟨s, hs, h⟩ := bind_ok h
    by_cases hk : s.keys.length ≠ items.length
    · rw [if_pos hk] at h
      cases h
    rw [if_neg hk] at h
    cases first with
    | none =>
      obtain ⟨hfirst, hrest⟩ := ih h
      obtain rfl : s = schema := hfirst s rfl
      exact ⟨by simp, List.forall_mem_cons.mpr ⟨⟨hs, not_not.mp hk⟩, hrest⟩⟩
    | some t =>
      have h : (if t = s then mergeSchema items (some t) feeds
        else throw (.mismatch (.sortedInputs t s))) = .ok (some schema) := h
      by_cases hts : t = s
      · rw [if_pos hts] at h
        obtain ⟨hfirst, hrest⟩ := ih h
        obtain rfl : t = schema := hfirst t rfl
        subst hts
        exact ⟨by simp, List.forall_mem_cons.mpr ⟨⟨hs, not_not.mp hk⟩, hrest⟩⟩
      · rw [if_neg hts] at h
        cases h

theorem firstRows_ok {cursors rest : List Cursor} {heads : List (Option Row)}
    (h : firstRows cursors = .ok (heads, rest)) :
    heads.length = rest.length ∧ (∀ l ∈ heads.zip rest, Lane.Settled l) ∧
      (heads.zip rest).map Lane.rows = cursors.map Cursor.rest ∧
      rest.map Cursor.fault = cursors.map Cursor.fault := by
  induction cursors generalizing heads rest with
  | nil =>
    cases h
    simp
  | cons c cursors ih =>
    rw [firstRows] at h
    obtain ⟨⟨r, d⟩, hn, h⟩ := bind_ok h
    obtain ⟨⟨rs, ds⟩, hrest, h⟩ := bind_ok h
    cases h
    obtain ⟨hlen, hsettled, hrows, hfaults⟩ := ih hrest
    obtain ⟨hr, hf, _⟩ := Cursor.next_ok hn
    refine ⟨by simp [hlen], ?_, ?_, ?_⟩
    · exact List.forall_mem_cons.mpr ⟨Lane.settled_of_next hn, hsettled⟩
    · simp [Lane.rows, hr, hrows]
    · simp [hf, hfaults]

/-- A merge without faults has found one schema and the first rows, and merged from these on. -/
theorem runMerge_merged {items : List SortItem} {batchRows : Nat} {inputs : List Feed} {stats : Stats}
    (h : (runMerge items batchRows inputs).outcome = .ok stats) :
    ∃ schema heads cursors rows, mergeSchema items none inputs = .ok (some schema) ∧
      firstRows (inputs.map Cursor.ofFeed) = .ok (heads, cursors) ∧
      mergeRows schema.withoutKeys.columns.length (countRows (inputs.flatMap (·.splits)))
        ⟨heads, directionsOf items⟩ cursors = (rows, none) ∧
      runMerge items batchRows inputs =
        { schema := some schema.withoutKeys
          splits := StreamWriter.batches { schema := schema.withoutKeys, rows } (max batchRows 1)
          outcome := .ok ⟨rows.length, rows.length⟩ } := by
  rcases hs : mergeSchema items none inputs with e | _ | schema
  · rw [runMerge, hs] at h
    cases h
  · rw [runMerge, hs] at h
    cases h
  rcases hf : firstRows (inputs.map Cursor.ofFeed) with e | ⟨heads, cursors⟩
  · simp only [runMerge, hs, mergeInto, hf] at h
    cases h
  rcases hm : mergeRows schema.withoutKeys.columns.length (countRows (inputs.flatMap (·.splits)))
    ⟨heads, directionsOf items⟩ cursors with ⟨rows, _ | e⟩
  · refine ⟨schema, heads, cursors, rows, rfl, rfl, hm, ?_⟩
    simp only [runMerge, hs, mergeInto, hf, hm]
  · simp only [runMerge, hs, mergeInto, hf, hm] at h
    cases h

/-- A merge without faults: all inputs have ended under one schema with a key for each item, and
their rows are written without keys, in order if every input is. -/
theorem runMerge_ok {items : List SortItem} {batchRows : Nat} {inputs : List Feed} {stats : Stats}
    (h : (runMerge items batchRows inputs).outcome = .ok stats) :
    ∃ schema, (∀ f ∈ inputs, f.Ended schema ∧ schema.keys.length = items.length) ∧
      (runMerge items batchRows inputs).schema = some schema.withoutKeys ∧
      (∀ s ∈ (runMerge items batchRows inputs).splits, s.Under schema.withoutKeys) ∧
      ∃ taken, rowsOf (runMerge items batchRows inputs).splits = taken.map Row.withoutKeys ∧
        taken.Perm (inputs.flatMap fun f => rowsOf f.splits) ∧
        ∀ (cmp : Row → Row → Ordering) [Std.TransCmp cmp],
          Heads.Agrees (directionsOf items) cmp (inputs.flatMap fun f => rowsOf f.splits) →
          (∀ f ∈ inputs, InOrder cmp (rowsOf f.splits)) → InOrder cmp taken := by
  obtain ⟨schema, heads, cursors, rows, hs, hf, hm, hrun⟩ := runMerge_merged h
  obtain ⟨hlen, hsettled, hrows, hfaults⟩ := firstRows_ok hf
  have hlanes : (lanes ⟨heads, directionsOf items⟩ cursors).flatMap Lane.rows =
      inputs.flatMap fun f => rowsOf f.splits := by
    rw [lanes, List.flatMap_def, hrows, List.map_map, List.flatMap_def]
    rfl
  have hcount : countRows (inputs.flatMap (·.splits)) =
      ((lanes ⟨heads, directionsOf items⟩ cursors).flatMap Lane.rows).length := by
    rw [hlanes, ← length_rowsOf, rowsOf, List.flatMap_assoc]
    rfl
  have hmerging : Merging ⟨heads, directionsOf items⟩ cursors := ⟨hlen, hsettled⟩
  obtain ⟨taken, htaken, hwidths, hperm, hended, horder⟩ := mergeRows_spec hmerging
    (Nat.le_of_eq hcount.symm) (congrArg Prod.snd hm)
  rw [hm] at htaken
  rw [hlanes] at hperm
  have hfault : ∀ f ∈ inputs, f.fault = none := by
    intro f hmem
    have hc : f.fault ∈ cursors.map Cursor.fault := by
      rw [hfaults, List.map_map]
      exact List.mem_map_of_mem hmem
    obtain ⟨c, hc, hcf⟩ := List.mem_map.mp hc
    rw [← hcf]
    exact hended c hc
  have hschema := (mergeSchema_ok hs).2
  refine ⟨schema, fun f hmem => ⟨⟨(hschema f hmem).1, hfault f hmem⟩, (hschema f hmem).2⟩, ?_, ?_,
    taken, ?_, hperm, fun cmp _ ha ho => ?_⟩
  · rw [hrun]
  · rw [hrun]
    intro s hmem
    refine StreamWriter.batches_under ⟨rfl, fun r hr => ?_⟩ (by omega) hmem
    have hr : r ∈ taken.map Row.withoutKeys := htaken ▸ hr
    obtain ⟨t, ht, rfl⟩ := List.mem_map.mp hr
    exact ⟨hwidths t ht, rfl, rfl⟩
  · rw [hrun]
    exact (StreamWriter.rowsOf_batches _ (by omega)).trans htaken
  · refine horder cmp (hlanes ▸ ha) fun l hmem => ?_
    have hl : l.rows ∈ (heads.zip cursors).map Lane.rows := List.mem_map_of_mem hmem
    rw [hrows, List.map_map] at hl
    obtain ⟨f, hf, hl⟩ := List.mem_map.mp hl
    rw [← hl]
    exact ho f hf

end QueryCluster
