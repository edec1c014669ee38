import QueryCluster.Operator.Run
import QueryCluster.Proofs.Operator.Merge

/-!
# Inputs that break off

An operator that ends well has read every one of its inputs to its end, whatever it did with the rows. So
an input that ends in a fault makes the run fail, also if all rows that were wanted had come before it.
-/
namespace QueryCluster

namespace Feed

/-- A feed that has no schema or ends in a fault. -/
def Broken (f : Feed) : Prop := (∃ e, f.schema = .error e) ∨ ∃ e, f.fault = some e

theorem broken_iff {f : Feed} : f.Broken ↔ ¬ ∃ schema, f.Ended schema := by
  constructor
  · rintro (⟨e, he⟩ | ⟨e, he⟩) ⟨schema, hschema, hfault⟩
    · cases he.symm.trans hschema
    · cases he.symm.trans hfault
  · intro h
    rcases hs : f.schema with e | schema
    · exact .inl ⟨e, hs⟩
    rcases hf : f.fault with _ | e
    · exact absurd ⟨schema, hs, hf⟩ h
    · exact .inr ⟨e, hf⟩

end Feed

namespace Process

variable {σ : Type} {process : Schema → Except OperatorError (Process σ)}
  {feed : Except OperatorError Feed}

@[simp] theorem schema_run (p : Process σ) (feed : Feed) : (p.run feed).schema = some p.schema := by
  rw [run]
  rcases p.answer p.start feed.splits with ⟨out, e | s⟩
  · rfl
  · cases feed.fault <;> rfl

/-- A run that comes to its process, or what it lacks for that. -/
theorem runOn_cases (process : Schema → Except OperatorError (Process σ))
    (feed : Except OperatorError Feed) :
    (∃ f schema p, feed = .ok f ∧ f.schema = .ok schema ∧ process schema = .ok p ∧
      runOn process feed = p.run f) ∨
    ∃ e, runOn process feed = .failed e ∧ (feed = .error e ∨ ∃ f, feed = .ok f ∧
      (f.schema = .error e ∨ ∃ schema, f.schema = .ok schema ∧ process schema = .error e)) := by
  rcases feed with e | f
  · exact .inr ⟨e, rfl, .inl rfl⟩
  rcases hs : f.schema with e | schema
  · exact .inr ⟨e, by simp only [runOn, bind, Except.bind, hs], .inr ⟨f, rfl, .inl hs⟩⟩
  rcases hp : process schema with e | p
  · exact .inr ⟨e, by simp only [runOn, bind, Except.bind, hs, hp], .inr ⟨f, rfl, .inr ⟨schema, hs, hp⟩⟩⟩
  · refine .inl ⟨f, schema, p, rfl, hs, hp, ?_⟩
    simp only [runOn, bind, Except.bind, hs, hp]
    rfl

theorem runOn_unopened (h : (runOn process feed).schema = none) : ∃ e, runOn process feed = .failed e := by
  rcases runOn_cases process feed with ⟨f, schema, p, _, _, _, hrun⟩ | ⟨e, hrun, _⟩
  · rw [hrun, schema_run] at h
    cases h
  · exact ⟨e, hrun⟩

end Process

@[simp] theorem schema_mergeInto (items : List SortItem) (batchRows : Nat) (output : Schema)
    (inputs : List Feed) : (mergeInto items batchRows output inputs).schema = some output := by
  rw [mergeInto]
  rcases firstRows (inputs.map Cursor.ofFeed) with e | ⟨heads, cursors⟩
  · rfl
  · simp only
    split <;> rfl

namespace Operator

variable {w : Workplace} {arrival : List Nat} {inputs : List Feed} {op : Operator}

/-- An operator that ends well has seen all of its inputs end. -/
theorem ended_of_run {stats : Stats} (h : (op.run w arrival inputs).outcome = .ok stats) :
    ∀ f ∈ inputs, ∃ schema, f.Ended schema := by
  have hgather : ∀ {σ : Type} {process : Schema → Except OperatorError (Process σ)},
      (Process.runOn process (Feed.gather arrival inputs)).outcome = .ok stats →
        ∀ f ∈ inputs, ∃ schema, f.Ended schema := fun h f hf => by
    obtain ⟨schema, _, _, _, hended, _⟩ := Process.runOn_gather_ok h
    exact ⟨schema, hended f hf⟩
  cases op with
  | scan part =>
    cases inputs with
    | nil => simp
    | cons f inputs => cases h
  | merge items =>
    obtain ⟨schema, hended, _⟩ := runMerge_ok h
    exact fun f hf => ⟨schema, (hended f hf).1⟩
  | filter predicate => exact hgather h
  | project exprs => exact hgather h
  | group keys aggregates emptyRow => exact hgather h
  | localSort items => exact hgather h
  | limit count => exact hgather h
  | union => exact hgather h

theorem run_of_broken (h : ∃ f ∈ inputs, f.Broken) :
    ∃ e, (op.run w arrival inputs).outcome = .error e := by
  obtain ⟨f, hf, hbroken⟩ := h
  rcases hrun : (op.run w arrival inputs).outcome with e | stats
  · exact ⟨e, rfl⟩
  · exact absurd (ended_of_run hrun f hf) (Feed.broken_iff.mp hbroken)

/-- An operator that has opened no output has failed. -/
theorem run_unopened (h : (op.run w arrival inputs).schema = none) :
    ∃ e, op.run w arrival inputs = .failed e := by
  cases op with
  | scan part =>
    cases inputs with
    | nil => cases h
    | cons f inputs => exact ⟨_, rfl⟩
  | merge items =>
    rw [run, runMerge] at h ⊢
    rcases hs : mergeSchema items none inputs with e | _ | schema
    · exact ⟨e, rfl⟩
    · exact ⟨_, rfl⟩
    · simp only [hs, schema_mergeInto] at h
      cases h
  | filter predicate => exact Process.runOn_unopened h
  | project exprs => exact Process.runOn_unopened h
  | group keys aggregates emptyRow => exact Process.runOn_unopened h
  | localSort items => exact Process.runOn_unopened h
  | limit count => exact Process.runOn_unopened h
  | union => exact Process.runOn_unopened h

end Operator
end QueryCluster
