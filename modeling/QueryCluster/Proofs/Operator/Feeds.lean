import Mathlib.Data.List.Basic
import QueryCluster.Operator.Emission
import QueryCluster.Proofs.Outcome
import QueryCluster.Proofs.Stream.Calls

/-!
# What operators take from their inputs

Several inputs read as one give every split of every input once, whatever the order of arrival. A
process that succeeds was handed a feed that ended without a fault, and answered all its splits.
-/
namespace QueryCluster

/-- Taking the first entry away from one of many lists. -/
theorem flatMap_set_perm {α β : Type} {f : α → List β} {as : List α} {i : Nat} {old new : α} {b : β}
    (hi : as[i]? = some old) (h : f old = b :: f new) :
    (as.flatMap f).Perm (b :: (as.set i new).flatMap f) := by
  induction as generalizing i with
  | nil => simp at hi
  | cons a as ih =>
    cases i with
    | zero =>
      have ha : a = old := by simpa using hi
      subst ha
      simp [h]
    | succ i =>
      have hrest := ih (by simpa using hi)
      have := (hrest.append_left (f a)).trans List.perm_middle
      simpa using this

namespace Feed

/-- A feed that has a schema and ends without a fault. -/
structure Ended (schema : Schema) (f : Feed) : Prop where
  schema_eq : f.schema = .ok schema
  fault_eq : f.fault = none

/-- All that a feed gives stands under a schema. -/
structure Under (schema : Schema) (f : Feed) : Prop where
  schema_eq : ∀ s, f.schema = .ok s → s = schema
  splits : ∀ s ∈ f.splits, s.Under schema

/-- The rows of many feeds. -/
def rows (feeds : List Feed) : List Row := feeds.flatMap fun f => rowsOf f.splits

theorem rowsOf_perm {splits : List Split} {feeds : List Feed}
    (h : splits.Perm (feeds.flatMap (·.splits))) : (rowsOf splits).Perm (rows feeds) := by
  have := h.flatMap_right (·.rows)
  rwa [List.flatMap_assoc] at this

theorem under_of_perm {schema : Schema} {splits : List Split} {feeds : List Feed}
    (hu : ∀ f ∈ feeds, f.Under schema) (hperm : splits.Perm (feeds.flatMap (·.splits))) {s : Split}
    (hs : s ∈ splits) : s.Under schema := by
  obtain ⟨f, hf, hs⟩ := List.mem_flatMap.mp (hperm.mem_iff.mp hs)
  exact (hu f hf).splits s hs

theorem drain_ok {feeds : List Feed} {splits : List Split} (h : drain feeds = (splits, none)) :
    splits = feeds.flatMap (·.splits) ∧ ∀ f ∈ feeds, f.fault = none := by
  induction feeds generalizing splits with
  | nil =>
    cases h
    exact ⟨rfl, by simp⟩
  | cons f feeds ih =>
    rw [drain] at h
    rcases hf : f.fault with _ | e
    · rw [hf] at h
      rcases hd : drain feeds with ⟨rest, fault⟩
      rw [hd] at h
      cases h
      obtain ⟨rfl, hfeeds⟩ := ih hd
      refine ⟨rfl, fun g hg => ?_⟩
      rcases List.mem_cons.mp hg with rfl | hg
      · exact hf
      · exact hfeeds g hg
    · rw [hf] at h
      cases h

/-- No order of arrival loses or doubles a split, and none hides a fault. -/
theorem interleave_ok {arrival : List Nat} {feeds : List Feed} {splits : List Split}
    (h : interleave arrival feeds = (splits, none)) :
    splits.Perm (feeds.flatMap (·.splits)) ∧ ∀ f ∈ feeds, f.fault = none := by
  fun_induction interleave arrival feeds generalizing splits with
  | case1 feeds =>
    obtain ⟨rfl, hf⟩ := drain_ok h
    exact ⟨.refl _, hf⟩
  | case2 i arrival feeds _ ih => exact ih h
  | case3 i arrival feeds f hi s rest hs given fault hrest ih =>
    cases h
    obtain ⟨hperm, hfault⟩ := ih hrest
    refine ⟨(hperm.cons s).trans (flatMap_set_perm hi hs).symm, fun g hg => ?_⟩
    obtain ⟨k, hk, rfl⟩ := List.mem_iff_getElem.mp hg
    by_cases hki : i = k
    · subst hki
      have hmem : { f with splits := rest } ∈ feeds.set i { f with splits := rest } :=
        List.mem_iff_getElem.mpr ⟨i, by rw [List.length_set]; exact hk, List.getElem_set_self _⟩
      have hf : feeds[i] = f := by
        rw [List.getElem?_eq_getElem hk] at hi
        exact Option.some.inj hi
      rw [hf]
      exact hfault { f with splits := rest } hmem
    · have hset : (feeds.set i { f with splits := rest })[k]? = some feeds[k] := by
        rw [List.getElem?_set_ne hki, List.getElem?_eq_getElem hk]
      exact hfault _ (List.mem_of_getElem? hset)
  | case4 i arrival feeds f hi hs e he => cases h
  | case5 i arrival feeds f hi hs hf ih => exact ih h

theorem commonSchema_ok {disagree : Schema → Schema → MismatchFault} {first : Option Schema}
    {feeds : List Feed} {schema : Schema}
    (h : commonSchema disagree first feeds = .ok (some schema)) :
    (∀ s ∈ first, s = schema) ∧ ∀ f ∈ feeds, f.schema = .ok schema := by
  induction feeds generalizing first with
  | nil =>
    cases h
    simp
  | cons f feeds ih =>
    rw [commonSchema] at h
    rcases hs : f.schema with e | s
    · rw [hs] at h
      cases h
    rw [hs] at h
    cases first with
    | none =>
      obtain ⟨hfirst, hrest⟩ := ih h
      have hs' : s = schema := hfirst s rfl
      refine ⟨by simp, fun g hg => ?_⟩
      rcases List.mem_cons.mp hg with rfl | hg
      · rw [hs, hs']
      · exact hrest g hg
    | some t =>
      have h : (if t = s then commonSchema disagree (some t) feeds
        else throw (.mismatch (disagree t s))) = .ok (some schema) := h
      split at h
      · rename_i hts
        obtain ⟨hfirst, hrest⟩ := ih h
        have ht : t = schema := hfirst t rfl
        refine ⟨by simpa using ht, fun g hg => ?_⟩
        rcases List.mem_cons.mp hg with rfl | hg
        · rw [hs, ← hts, ht]
        · exact hrest g hg
      · cases h

/-- Inputs that read as one ended feed are there and have all ended, under one schema. -/
theorem gather_ok {arrival : List Nat} {feeds : List Feed} {f : Feed} {schema : Schema}
    (h : gather arrival feeds = .ok f) (hf : f.Ended schema) :
    feeds ≠ [] ∧ (∀ g ∈ feeds, g.Ended schema) ∧ f.splits.Perm (feeds.flatMap (·.splits)) := by
  match feeds, h with
  | [], h => cases h
  | [g], h =>
    cases h
    exact ⟨by simp, by simpa using hf, by simp⟩
  | g₁ :: g₂ :: rest, h =>
    rw [gather] at h
    · rcases hc : commonSchema .inputs none (g₁ :: g₂ :: rest) with e | first
      · rw [hc] at h
        cases h
      rw [hc] at h
      cases first with
      | none => cases h
      | some s =>
        rcases hi : interleave arrival (g₁ :: g₂ :: rest) with ⟨splits, fault⟩
        simp only [bind, Except.bind, hi] at h
        cases h
        have hs : s = schema := Except.ok.inj hf.schema_eq
        have hfault : fault = none := hf.fault_eq
        subst hs hfault
        obtain ⟨hperm, hfaults⟩ := interleave_ok hi
        exact ⟨by simp, fun g hg => ⟨(commonSchema_ok hc).2 g hg, hfaults g hg⟩, hperm⟩
    all_goals simp

end Feed

namespace Process

variable {σ : Type}

theorem run_ok {p : Process σ} {feed : Feed} {stats : Stats} (h : (p.run feed).outcome = .ok stats) :
    feed.fault = none ∧ ∃ s out, p.answer p.start feed.splits = (out, .ok s) ∧
      (p.run feed).schema = some p.schema ∧ (p.run feed).splits = out ++ p.finish s := by
  rcases ha : p.answer p.start feed.splits with ⟨out, e | s⟩
  · rw [run, ha] at h
    cases h
  rcases hf : feed.fault with _ | e
  · refine ⟨rfl, s, out, rfl, ?_, ?_⟩ <;> rw [run, ha, hf]
  · rw [run, ha, hf] at h
    cases h

/-- A process over gathered inputs that succeeds has answered all splits of all inputs. -/
theorem runOn_gather_ok {process : Schema → Except OperatorError (Process σ)} {arrival : List Nat}
    {feeds : List Feed} {stats : Stats}
    (h : (runOn process (Feed.gather arrival feeds)).outcome = .ok stats) :
    ∃ schema p, process schema = .ok p ∧ feeds ≠ [] ∧ (∀ f ∈ feeds, f.Ended schema) ∧
      ∃ splits s out, splits.Perm (feeds.flatMap (·.splits)) ∧
        p.answer p.start splits = (out, .ok s) ∧
        (runOn process (Feed.gather arrival feeds)).schema = some p.schema ∧
        (runOn process (Feed.gather arrival feeds)).splits = out ++ p.finish s := by
  rcases hg : Feed.gather arrival feeds with e | f
  · rw [hg] at h
    cases h
  rcases hs : f.schema with e | schema
  · rw [hg] at h
    simp only [runOn, bind, Except.bind, hs] at h
    cases h
  rcases hp : process schema with e | p
  · rw [hg] at h
    simp only [runOn, bind, Except.bind, hs, hp] at h
    cases h
  have hrun : runOn process (.ok f) = p.run f := by
    simp only [runOn, bind, Except.bind, hs, hp]
    rfl
  rw [hg, hrun] at h
  obtain ⟨hfault, s, out, ha, hschema, hsplits⟩ := run_ok h
  obtain ⟨hne, hended, hperm⟩ := Feed.gather_ok hg ⟨hs, hfault⟩
  rw [hrun]
  exact ⟨schema, p, hp, hne, hended, f.splits, s, out, hperm, ha, hschema, hsplits⟩

end Process

/-!
## Lists woven into one

Rows that leave several lists one by one, each from the front of its list, come out in some order that
keeps the order of every list. So do the splits of several inputs that are read as one: whatever the
order of arrival is, inputs that end well under one schema read as one input that does.
-/

theorem flatten_next {α : Type} (front back : List (List α)) (a : α) (rest : List α) :
    (front ++ (a :: rest) :: back).flatten = front.flatten ++ a :: (rest ++ back.flatten) := by
  simp

theorem flatten_next_sublist {α : Type} (front back : List (List α)) (a : α) (rest : List α) :
    (front ++ rest :: back).flatten.Sublist (front ++ (a :: rest) :: back).flatten := by
  rw [flatten_next, List.flatten_append, List.flatten_cons]
  exact (List.sublist_cons_self a _).append_left _

/-- Lists woven into one: every entry is the first that is left of some list. -/
inductive Interleaves {α : Type} : List (List α) → List α → Prop
  | done {lists : List (List α)} (h : ∀ l ∈ lists, l = []) : Interleaves lists []
  | next {front back : List (List α)} {rest all : List α} (a : α)
      (h : Interleaves (front ++ rest :: back) all) :
      Interleaves (front ++ (a :: rest) :: back) (a :: all)

namespace Interleaves

variable {α : Type} {lists : List (List α)} {all : List α}

theorem perm (h : Interleaves lists all) : all.Perm lists.flatten := by
  induction h with
  | done h => rw [List.flatten_eq_nil_iff.mpr h]
  | @next front back rest all a _ ih =>
    rw [flatten_next]
    rw [List.flatten_append, List.flatten_cons] at ih
    exact (ih.cons a).trans List.perm_middle.symm

theorem sublist (h : Interleaves lists all) : ∀ l ∈ lists, l.Sublist all := by
  induction h with
  | done h => exact fun l hl => h l hl ▸ List.Sublist.refl _
  | @next front back rest all a _ ih =>
    obtain ⟨hfront, hrest, hback⟩ : (∀ l ∈ front, l.Sublist all) ∧ rest.Sublist all ∧
        ∀ l ∈ back, l.Sublist all := by simpa [or_imp, forall_and] using ih
    intro l hl
    rcases List.mem_append.mp hl with hl | hl
    · exact (hfront l hl).cons a
    · rcases List.mem_cons.mp hl with rfl | hl
      · exact hrest.cons_cons a
      · exact (hback l hl).cons a

theorem of_set {i : Nat} {a : α} {rest : List α} (hi : lists[i]? = some (a :: rest))
    (h : Interleaves (lists.set i rest) all) : Interleaves lists (a :: all) := by
  obtain ⟨hlt, hget⟩ := List.getElem?_eq_some_iff.mp hi
  have hlists : lists = lists.take i ++ (a :: rest) :: lists.drop (i + 1) := by
    rw [← hget, List.getElem_cons_drop, List.take_append_drop]
  rw [List.set_eq_take_append_cons_drop, if_pos hlt] at h
  rw [hlists]
  exact .next a h

theorem cons_nil (h : Interleaves lists all) : Interleaves ([] :: lists) all := by
  induction h with
  | done h => exact .done (List.forall_mem_cons.mpr ⟨rfl, h⟩)
  | @next front back rest all a _ ih =>
    have ih : Interleaves (([] :: front) ++ rest :: back) all := ih
    exact ih.next a

/-- One list after another. -/
theorem flatten (lists : List (List α)) : Interleaves lists lists.flatten := by
  induction lists with
  | nil => exact .done (List.forall_mem_nil _)
  | cons l lists ih =>
    induction l with
    | nil => exact ih.cons_nil
    | cons a l ihl =>
      have ihl : Interleaves ([] ++ l :: lists) (l :: lists).flatten := ihl
      exact ihl.next a

end Interleaves

namespace Feed

theorem drain_unfaulted {feeds : List Feed} (h : ∀ f ∈ feeds, f.fault = none) :
    drain feeds = (feeds.flatMap (·.splits), none) := by
  induction feeds with
  | nil => rfl
  | cons f feeds ih =>
    obtain ⟨hf, hfeeds⟩ := List.forall_mem_cons.mp h
    rw [drain, hf]
    simp only [ih hfeeds, List.flatMap_cons]

theorem interleave_unfaulted (arrival : List Nat) {feeds : List Feed}
    (h : ∀ f ∈ feeds, f.fault = none) :
    (interleave arrival feeds).2 = none ∧
      Interleaves (feeds.map (·.splits)) (interleave arrival feeds).1 := by
  fun_induction interleave arrival feeds with
  | case1 feeds =>
    rw [drain_unfaulted h, List.flatMap_def]
    exact ⟨rfl, .flatten _⟩
  | case2 i arrival feeds _ ih => exact ih h
  | case3 i arrival feeds f hi s rest hs splits fault hrest ih =>
    have hset : ∀ g ∈ feeds.set i { f with splits := rest }, g.fault = none := by
      intro g hg
      rcases List.mem_or_eq_of_mem_set hg with hg | rfl
      · exact h g hg
      · exact h f (List.mem_of_getElem? hi)
    obtain ⟨hfault, hweave⟩ := ih hset
    rw [hrest, List.map_set] at hweave
    rw [hrest] at hfault
    refine ⟨hfault, .of_set ?_ hweave⟩
    rw [List.getElem?_map, hi, Option.map_some, hs]
  | case4 i arrival feeds f hi e hfault _ =>
    rw [h f (List.mem_of_getElem? hi)] at hfault
    cases hfault
  | case5 i arrival feeds f hi hs hf ih => exact ih h

theorem commonSchema_eq_ok (disagree : Schema → Schema → MismatchFault) {schema : Schema}
    (first : Option Schema) {feeds : List Feed} (hfirst : ∀ s ∈ first, s = schema)
    (hne : first ≠ none ∨ feeds ≠ []) (h : ∀ f ∈ feeds, f.schema = .ok schema) :
    commonSchema disagree first feeds = .ok (some schema) := by
  induction feeds generalizing first with
  | nil =>
    cases first with
    | none => exact absurd rfl (hne.resolve_right (not_not.mpr rfl))
    | some s => rw [hfirst s rfl]; rfl
  | cons f feeds ih =>
    obtain ⟨hf, hfeeds⟩ := List.forall_mem_cons.mp h
    have hrest := ih (some schema) (fun s hs => (Option.some.inj hs).symm) (.inl nofun) hfeeds
    rw [commonSchema, hf, ok_bind]
    cases first with
    | none => exact hrest
    | some s =>
      obtain rfl : s = schema := hfirst s rfl
      exact (if_pos rfl).trans hrest

/-- Inputs that end well under one schema read as one such input, whatever the order of arrival is. -/
theorem gather_ended (arrival : List Nat) {schema : Schema} {feeds : List Feed} (hne : feeds ≠ [])
    (h : ∀ f ∈ feeds, f.Ended schema ∧ f.Under schema) :
    ∃ f, gather arrival feeds = .ok f ∧ f.Ended schema ∧ f.Under schema ∧
      Interleaves (feeds.map (·.splits)) f.splits := by
  match feeds, hne, h with
  | [f], _, h =>
    obtain ⟨hended, hunder⟩ := h f List.mem_cons_self
    refine ⟨f, rfl, hended, hunder, ?_⟩
    simpa using Interleaves.flatten [f.splits]
  | f :: g :: rest, hne, h =>
    have hschema := commonSchema_eq_ok .inputs none nofun (.inr hne)
      fun f hf => (h f hf).1.schema_eq
    obtain ⟨hfault, hweave⟩ := interleave_unfaulted arrival fun f hf => (h f hf).1.fault_eq
    refine ⟨{ schema := .ok schema, splits := (interleave arrival (f :: g :: rest)).1, fault := none },
      ?_, ⟨rfl, rfl⟩, ⟨fun s hs => (Except.ok.inj hs).symm, fun s hs => ?_⟩, hweave⟩
    · rw [gather, hschema]
      · simp only [ok_bind, ← hfault]
        rfl
      all_goals simp
    · refine under_of_perm (fun f hf => (h f hf).2) ?_ hs
      rw [List.flatMap_def]
      exact hweave.perm

end Feed

namespace Process

variable {σ : Type} {p : Process σ} {feed : Feed} {out : List Split}

theorem runOn_ok {process : Schema → Except OperatorError (Process σ)} {schema : Schema}
    (hschema : feed.schema = .ok schema) (hp : process schema = .ok p) :
    runOn process (.ok feed) = p.run feed := by
  simp only [runOn, ok_bind, hschema, hp]
  rfl

theorem run_answered {s : σ} (hfault : feed.fault = none)
    (h : p.answer p.start feed.splits = (out, .ok s)) :
    p.run feed =
      { schema := some p.schema
        splits := out ++ p.finish s
        outcome := .ok ⟨countRows feed.splits, countRows (out ++ p.finish s)⟩ } := by
  rw [run, h, hfault]

theorem run_failed {e : OperatorError} (h : p.answer p.start feed.splits = (out, .error e)) :
    p.run feed = { schema := some p.schema, splits := out, outcome := .error e } := by
  rw [run, h]

end Process
end QueryCluster
