import Mathlib.Data.List.Perm.Basic
import QueryCluster.Scheduler.State

/-!
# What the lists of the scheduler hold

Inserting, taking and updating touch one task and leave the others. Allocation binds the names it is
given and no others. An order of calls has all numbers of nodes, each once.
-/
namespace QueryCluster

theorem narrow_passes (test : Nat → Bool) (base size : Nat) :
    narrow test base size = base ∨ test (narrow test base size) := by
  fun_induction narrow test base size with
  | case1 => exact .inl rfl
  | case2 base size _ ih =>
    by_cases htest : test (base + size / 2)
    · rw [dif_pos htest] at ih
      rw [if_pos htest]
      exact .inr (ih.elim (fun h => by rwa [h]) id)
    · rw [dif_neg htest] at ih
      rwa [if_neg htest]

theorem partitionPoint_le {α : Type} (test : α → Bool) (as : List α) :
    partitionPoint test as ≤ as.length := by
  have hpasses : ∀ i, (as[i]?.any test) = true → i < as.length := fun i h => by
    by_contra hi
    rw [List.getElem?_eq_none (by omega)] at h
    cases h
  simp only [partitionPoint]
  split
  · exact hpasses _ ‹_›
  · rename_i hlast
    rcases narrow_passes (fun i => as[i]?.any test) 0 as.length with h | h
    · omega
    · exact absurd h hlast

theorem nodup_eraseDups (named : List Nat) : named.eraseDups.Nodup := by
  induction hlength : named.length using Nat.strongRecOn generalizing named with
  | ind length ih =>
    cases named with
    | nil => exact List.nodup_nil
    | cons k ks =>
      have hshorter : (ks.filter fun j => !j == k).length < length :=
        hlength ▸ Nat.lt_succ_of_le (List.length_filter_le ..)
      rw [List.eraseDups_cons, List.nodup_cons]
      exact ⟨by simp, ih _ hshorter _ rfl⟩

theorem index_eq_of_map {α β : Type} {f : α → β} {xs : List α} (h : (xs.map f).Nodup) {i j : Nat}
    {a b : α} (ha : xs[i]? = some a) (hb : xs[j]? = some b) (heq : f a = f b) : i = j := by
  have hi : i < (xs.map f).length := by simpa using (List.getElem?_eq_some_iff.mp ha).1
  refine (List.getElem?_inj hi h).mp ?_
  rw [List.getElem?_map, List.getElem?_map, ha, hb, Option.map_some, Option.map_some, heq]

/-- Calls in parallel go to each executor once. -/
theorem Client.callOrder_spec (named : List Nat) (m : Nat) :
    (Client.callOrder named m).Nodup ∧ ∀ k, k ∈ Client.callOrder named m ↔ k < m := by
  have hfirst : (named.eraseDups.filter (· < m)).Nodup := (nodup_eraseDups named).filter _
  refine ⟨List.nodup_append.mpr ⟨hfirst, List.nodup_range.filter _, ?_⟩, fun k => ?_⟩
  · rintro a ha b hb rfl
    exact of_decide_eq_true (List.mem_filter.mp hb).2 ha
  · rw [Client.callOrder, List.mem_append, List.mem_filter, List.mem_filter, List.mem_range]
    by_cases hk : k ∈ named.eraseDups.filter (· < m)
    · have hlt := of_decide_eq_true (List.mem_filter.mp hk).2
      exact ⟨fun _ => hlt, fun _ => .inl (List.mem_filter.mp hk)⟩
    · exact ⟨fun h => h.elim (fun h => absurd (List.mem_filter.mpr h) hk) And.left,
        fun h => .inr ⟨h, decide_eq_true hk⟩⟩

namespace TaskList

theorem insert_perm (l : TaskList) (t : Task) : (l.insert t).Perm (t :: l) :=
  List.perm_insertIdx t l (partitionPoint_le _ _)

theorem take?_ok {l rest : TaskList} {id : TaskId} {t : Task} (h : l.take? id = some (t, rest)) :
    t.id = id ∧ l.Perm (t :: rest) := by
  induction l generalizing rest with
  | nil => cases h
  | cons u us ih =>
    rw [take?] at h
    split at h
    · cases h
      exact ⟨‹_›, .refl _⟩
    · obtain ⟨⟨found, others⟩, hfound, h⟩ := Option.map_eq_some_iff.mp h
      cases h
      obtain ⟨hid, hperm⟩ := ih hfound
      exact ⟨hid, (hperm.cons u).trans (.swap ..)⟩

theorem take?_none {l : TaskList} {id : TaskId} (h : l.take? id = none) : ∀ t ∈ l, t.id ≠ id := by
  induction l with
  | nil => exact fun _ h => by cases h
  | cons u us ih =>
    rw [take?] at h
    split at h
    · cases h
    · exact List.forall_mem_cons.mpr ⟨‹_›, ih (Option.map_eq_none_iff.mp h)⟩

theorem take?_eq (l : TaskList) (id : TaskId) :
    l.take? id = (l.get? id).map fun t => (t, l.eraseP (·.id = id)) := by
  induction l with
  | nil => rfl
  | cons u us ih =>
    rw [take?, get?, List.find?_cons, List.eraseP_cons]
    by_cases h : u.id = id
    · simp [h]
    · simp only [h, if_false, decide_false, ih, Option.map_map]
      rfl

/-- An update that keeps what a function reads. -/
theorem map_update {α : Type} (read : Task → α) {f : Task → Task} (hf : ∀ t, read (f t) = read t)
    (id : TaskId) (l : TaskList) : (l.update f id).map read = l.map read := by
  induction l with
  | nil => rfl
  | cons u us ih =>
    rw [update]
    split
    · rw [List.map_cons, List.map_cons, hf]
    · rw [List.map_cons, List.map_cons, ih]

/-- An update changes the task of its number and no other. -/
theorem mem_update {f : Task → Task} {id : TaskId} {l : TaskList} (hunique : (l.map (·.id)).Nodup) {t : Task}
    (ht : t ∈ l.update f id) : t ∈ l ∧ t.id ≠ id ∨ ∃ u ∈ l, u.id = id ∧ t = f u := by
  induction l with
  | nil => cases ht
  | cons u us ih =>
    obtain ⟨hnot, hrest⟩ := List.nodup_cons.mp hunique
    rw [update] at ht
    split at ht
    · rename_i hid
      rcases List.mem_cons.mp ht with rfl | ht
      · exact .inr ⟨u, List.mem_cons_self, hid, rfl⟩
      · refine .inl ⟨List.mem_cons_of_mem _ ht, fun heq => hnot ?_⟩
        exact List.mem_map.mpr ⟨t, ht, heq.trans hid.symm⟩
    · rename_i hid
      rcases List.mem_cons.mp ht with rfl | ht
      · exact .inl ⟨List.mem_cons_self, hid⟩
      · exact (ih hrest ht).imp (fun ⟨hmem, hne⟩ => ⟨List.mem_cons_of_mem _ hmem, hne⟩)
          fun ⟨v, hv, heq⟩ => ⟨v, List.mem_cons_of_mem _ hv, heq⟩

theorem id_of_get? {l : TaskList} {id : TaskId} {t : Task} (h : l.get? id = some t) : t.id = id := by
  simpa using List.find?_some h

/-- Taking a task out hides no other. -/
theorem get?_eraseP (l : TaskList) {id other : TaskId} (h : other ≠ id) :
    get? (List.eraseP (·.id = id) l) other = l.get? other := by
  induction l with
  | nil => rfl
  | cons u us ih =>
    by_cases hid : u.id = id
    · simp [get?, hid, h.symm]
    · simp only [get?] at ih
      simp [get?, List.find?_cons, hid, ih]

theorem get?_push (l : TaskList) {t : Task} {other : TaskId} (h : other ≠ t.id) :
    get? (l ++ [t]) other = l.get? other := by
  simp [get?, List.find?_append, h.symm]

end TaskList

namespace SchedulerState

theorem lookup_filter_ne {α β : Type} [BEq α] [LawfulBEq α] [DecidableEq α] (es : List (α × β))
    {key other : α} (h : other ≠ key) : (es.filter (·.1 ≠ key)).lookup other = es.lookup other := by
  induction es with
  | nil => rfl
  | cons e es ih =>
    obtain ⟨k, value⟩ := e
    rw [List.filter_cons]
    split
    · rw [List.lookup_cons, List.lookup_cons, ih]
    · rename_i hkey
      obtain rfl : k = key := by simpa using hkey
      rw [List.lookup_cons, beq_false_of_ne h, ih]

/-- Storing rows of a task leaves those of others. -/
theorem lookup_store (results : List (TaskId × Split)) {id other : TaskId} (rows : Split) (h : other ≠ id) :
    ((id, rows) :: results.filter (·.1 ≠ id)).lookup other = results.lookup other := by
  rw [List.lookup_cons, beq_false_of_ne h, ← lookup_filter_ne results h]

/-- Allocation binds the names that it is given to the task, and no others. -/
theorem lookup_allocate (s : SchedulerState) (id : TaskId) (ls : List Location) (name : String) :
    (s.allocate id ls).allocated.lookup name =
      if name ∈ ls.map (·.name) then some id else s.allocated.lookup name := by
  simp only [allocate]
  induction ls generalizing s with
  | nil => simp
  | cons l ls ih =>
    rw [List.foldl_cons, ih { s with allocated := (l.name, id) :: s.allocated.filter (·.1 ≠ l.name) }]
    by_cases hmem : name ∈ ls.map (·.name)
    · rw [if_pos hmem, if_pos (by rw [List.map_cons]; exact List.mem_cons_of_mem _ hmem)]
    · rw [if_neg hmem, List.map_cons, List.lookup_cons]
      by_cases hl : name = l.name
      · rw [hl, if_pos List.mem_cons_self, beq_self_eq_true]
      · rw [beq_false_of_ne hl, if_neg fun h => (List.mem_cons.mp h).elim hl hmem]
        exact lookup_filter_ne _ hl

theorem mem_allocate {s : SchedulerState} {id : TaskId} {ls : List Location}
    {e : String × TaskId} : e ∈ (s.allocate id ls).allocated ↔
      (e.1 ∈ ls.map (·.name) ∧ e.2 = id) ∨ (e.1 ∉ ls.map (·.name) ∧ e ∈ s.allocated) := by
  simp only [allocate]
  induction ls generalizing s with
  | nil => simp
  | cons l ls ih =>
    rw [List.foldl_cons, @ih { s with allocated := (l.name, id) :: s.allocated.filter (·.1 ≠ l.name) }]
    rcases e with ⟨name, holder⟩
    by_cases hmem : name ∈ ls.map (·.name)
    · simp only [hmem, List.map_cons, List.mem_cons, or_true, true_and, not_true, false_and]
    · by_cases hl : name = l.name
      · simp [← hl, hmem]
      · simp [hmem, hl]

theorem allocate_nodup {s : SchedulerState} (h : (s.allocated.map (·.1)).Nodup) (id : TaskId)
    (ls : List Location) : ((s.allocate id ls).allocated.map (·.1)).Nodup := by
  simp only [allocate]
  induction ls generalizing s with
  | nil => exact h
  | cons l ls ih =>
    rw [List.foldl_cons]
    refine @ih { s with allocated := (l.name, id) :: s.allocated.filter (·.1 ≠ l.name) } ?_
    refine List.nodup_cons.mpr ⟨fun hmem => ?_, (List.filter_sublist.map _).nodup h⟩
    obtain ⟨e, he, hname⟩ := List.mem_map.mp hmem
    exact of_decide_eq_true (List.mem_filter.mp he).2 hname

theorem length_free_le (s : SchedulerState) (topology : Topology) :
    (s.free topology).length ≤ topology.length := by
  rw [free, List.length_map]
  exact List.length_filter_le ..

theorem not_allocated_of_free {s : SchedulerState} {topology : Topology} {l : Location}
    (h : l ∈ s.free topology) : l.name ∉ s.allocated.map (·.1) := by
  obtain ⟨e, he, rfl⟩ := List.mem_map.mp h
  have hfree := (of_decide_eq_true (List.mem_filter.mp he).2).2
  intro hmem
  obtain ⟨a, ha, hname⟩ := List.mem_map.mp hmem
  rw [Option.isNone_iff_eq_none, List.lookup_eq_none_iff] at hfree
  simpa [hname] using hfree a ha

end SchedulerState
end QueryCluster
