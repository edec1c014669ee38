import QueryCluster.Operator.Run
import QueryCluster.Proofs.Operator.GlobalSort

/-!
# Rows, however they are cut

An operator reads its rows split by split, and looks at a whole split for a limit, a slice or a buffer.
Still it is the rows that decide: a process that goes through a split as it would through its front and
then its back does the same with any other cut of the rows, and a cursor moves from row to row over the
ends of splits. So two cuts of the rows of each input, empty splits among them, make an operator fail
both or write the same.
-/
namespace QueryCluster

/-- The same input with its rows cut into other splits. -/
structure Feed.Recut (f g : Feed) : Prop where
  schema_eq : g.schema = f.schema
  fault_eq : g.fault = f.fault
  under : ∀ schema, f.schema = .ok schema → ∀ s ∈ f.splits ++ g.splits, s.schema = schema
  rows_eq : rowsOf g.splits = rowsOf f.splits

namespace Emission

/-- Two runs that both fail, or that both write the same rows under the same schema. -/
inductive Agrees (e e' : Emission) : Prop
  | failed {fault fault' : OperatorError} (h : e.outcome = .error fault)
      (h' : e'.outcome = .error fault')
  | written {stats : Stats} (h : e.outcome = .ok stats) (h' : e'.outcome = .ok stats)
      (schema_eq : e.schema = e'.schema) (rows_eq : rowsOf e.splits = rowsOf e'.splits)

/-- All that a run has written, apart from how it was cut, if the run went well. -/
def written? (e : Emission) : Option (Option Schema × List Row × Stats) :=
  e.outcome.toOption.map fun stats => (e.schema, rowsOf e.splits, stats)

theorem agrees_of_written {e e' : Emission} (h : e.written? = e'.written?) : e.Agrees e' := by
  rcases e with ⟨schema, splits, fault | stats⟩ <;> rcases e' with ⟨schema', splits', fault' | stats'⟩
  · exact .failed rfl rfl
  · cases h
  · cases h
  · obtain ⟨hschema, hwritten⟩ := Prod.mk.inj (Option.some.inj h)
    obtain ⟨hrows, rfl⟩ := Prod.mk.inj hwritten
    exact .written rfl rfl hschema hrows

end Emission

namespace Process

variable {σ : Type} {schema : Schema} {p : Process σ}

/-- First one thing, then another that goes on from there. -/
def andThen (x : Option (σ × List Row)) (next : σ → Option (σ × List Row)) :
    Option (σ × List Row) :=
  x.bind fun (s, rows) => (next s).map fun (t, more) => (t, rows ++ more)

/-- An answer to a split, apart from how it is cut. -/
def heard (x : Except OperatorError (σ × List Split)) : Option (σ × List Row) :=
  x.toOption.map fun (s, out) => (s, rowsOf out)

/-- A process that does with a split what a function does with rows, one part of them after another.
The state in which it starts stays as it is when there are no rows. -/
structure Takes (schema : Schema) (take : σ → List Row → Option (σ × List Row)) (p : Process σ) :
    Prop where
  step : ∀ s x, x.schema = schema → heard (p.step s x) = take s x.rows
  nil : take p.start [] = some (p.start, [])
  append : ∀ s xs ys, take s (xs ++ ys) = andThen (take s xs) fun t => take t ys

/-- What a process has answered to all splits, apart from how it is cut. -/
def told (p : Process σ) (s : σ) (splits : List Split) : Option (σ × List Row) :=
  (p.answer s splits).2.toOption.map fun t => (t, rowsOf (p.answer s splits).1)

theorem told_cons (p : Process σ) (s : σ) (x : Split) (xs : List Split) :
    p.told s (x :: xs) = andThen (heard (p.step s x)) fun t => p.told t xs := by
  rcases h : p.step s x with fault | ⟨t, out⟩
  · simp [told, answer, h, heard, andThen, Except.toOption]
  · rcases hrest : p.answer t xs with ⟨rest, fault | u⟩ <;>
      simp [told, answer, h, hrest, heard, andThen, Except.toOption]

theorem andThen_nil (x : Option (σ × List Row)) : andThen x (fun t => some (t, [])) = x := by
  rcases x with _ | ⟨t, rows⟩
  · rfl
  · simp [andThen]

theorem andThen_start (t : σ) (next : σ → Option (σ × List Row)) :
    andThen (some (t, [])) next = next t := by
  simp [andThen]

/-- However many splits the rows come in, they are taken as if they came in one. -/
theorem Takes.told_eq {take : σ → List Row → Option (σ × List Row)} (hp : p.Takes schema take)
    {splits : List Split} (hsplits : ∀ x ∈ splits, x.schema = schema) :
    p.told p.start splits = take p.start (rowsOf splits) := by
  have hcons : ∀ xs x s, (∀ y ∈ x :: xs, y.schema = schema) →
      p.told s (x :: xs) = take s (rowsOf (x :: xs)) := by
    intro xs
    induction xs with
    | nil =>
      intro x s hx
      rw [told_cons, hp.step s x (hx x List.mem_cons_self), rowsOf_cons, rowsOf_nil, List.append_nil]
      exact andThen_nil _
    | cons y xs ih =>
      intro x s hx
      obtain ⟨hhead, htail⟩ := List.forall_mem_cons.mp hx
      rw [told_cons, hp.step s x hhead, rowsOf_cons, hp.append]
      exact congrArg _ (funext fun t => ih y t htail)
  cases splits with
  | nil => exact hp.nil.symm
  | cons x xs => exact hcons xs x p.start hsplits

theorem written_run (p : Process σ) (feed : Feed) : (p.run feed).written? =
    if feed.fault.isSome then none
    else (p.told p.start feed.splits).map fun (s, rows) => (some p.schema, rows ++ rowsOf (p.finish s),
      ⟨(rowsOf feed.splits).length, (rows ++ rowsOf (p.finish s)).length⟩) := by
  rcases h : p.answer p.start feed.splits with ⟨out, fault | s⟩ <;> rcases hf : feed.fault with _ | e
  all_goals
    simp [run, told, h, hf, Emission.written?, Except.toOption, rowsOf_append, length_rowsOf, countRows_append]

theorem Takes.written_run {take : σ → List Row → Option (σ × List Row)} (hp : p.Takes schema take)
    {f g : Feed} (hschema : f.schema = .ok schema) (h : f.Recut g) :
    (p.run f).written? = (p.run g).written? := by
  obtain ⟨hf, hg⟩ := List.forall_mem_append.mp (h.under schema hschema)
  rw [Process.written_run, Process.written_run, h.fault_eq, hp.told_eq hf, hp.told_eq hg, h.rows_eq]

/-- Processes that go by the rows write the same for every cut of them. -/
theorem runOn_recut {process : Schema → Except OperatorError (Process σ)}
    (hp : ∀ schema p, process schema = .ok p → ∃ take, p.Takes schema take) {f g : Feed}
    (h : f.Recut g) :
    (runOn process (.ok f)).Agrees (runOn process (.ok g)) := by
  refine Emission.agrees_of_written ?_
  rcases hschema : f.schema with fault | schema
  · simp only [runOn, ok_bind, h.schema_eq, hschema]
    rfl
  · rcases hprocess : process schema with fault | p
    · simp only [runOn, ok_bind, h.schema_eq, hschema, hprocess]
      rfl
    · obtain ⟨take, htakes⟩ := hp schema p hprocess
      simp only [runOn, ok_bind, h.schema_eq, hschema, hprocess]
      exact htakes.written_run hschema h

end Process

open Process (Takes andThen andThen_start heard)

section Single

variable {schema : Schema}

theorem keptRows_append (predicates : List Expr) (xs ys : List Row) :
    keptRows schema predicates (xs ++ ys) = do
      let front ← keptRows schema predicates xs
      let back ← keptRows schema predicates ys
      return front ++ back := by
  induction xs with
  | nil =>
    rw [List.nil_append, keptRows, ok_bind]
    cases keptRows schema predicates ys <;> rfl
  | cons x xs ih =>
    simp only [List.cons_append, keptRows, ih, bind_assoc, pure_bind]
    refine bind_congr fun keep => bind_congr fun front => bind_congr fun back => ?_
    cases keep <;> rfl

theorem filterProcess_takes {predicate : Expr} {p : Process Unit}
    (h : filterProcess predicate schema = .ok p) :
    Takes schema (fun _ rows => (keptRows schema [predicate] rows).toOption.map ((), ·)) p := by
  obtain ⟨_, _, h⟩ := bind_ok h
  cases h
  refine ⟨fun _ x hx => ?_, rfl, fun _ xs ys => ?_⟩
  · subst hx
    rcases hkept : keptRows x.schema [predicate] x.rows with fault | rows
    · simp [heard, Split.filter, hkept, Except.toOption, bind, Except.bind]
    · simp [heard, Split.filter, hkept, Except.toOption, bind, Except.bind, pure, Except.pure,
        rowsOf_unlessEmpty]
  · rw [keptRows_append]
    rcases keptRows schema [predicate] xs with fault | front <;>
      rcases keptRows schema [predicate] ys with fault' | back <;> rfl

theorem projectProcess_takes {exprs : List NamedExpr} {p : Process Unit}
    (h : projectProcess exprs schema = .ok p) :
    Takes schema (fun _ rows => (rows.mapM (projectRow schema exprs)).toOption.map ((), ·)) p := by
  obtain ⟨columns, _, h⟩ := bind_ok h
  cases h
  refine ⟨fun _ x _ => ?_, rfl, fun _ xs ys => ?_⟩
  · rcases hrows : x.rows.mapM (projectRow schema exprs) with fault | rows
    · simp [heard, hrows, Except.toOption, bind, Except.bind]
    · simp [heard, hrows, Except.toOption, bind, Except.bind, pure, Except.pure, rowsOf]
  · rw [List.mapM_append]
    rcases xs.mapM (projectRow schema exprs) with fault | front <;>
      rcases ys.mapM (projectRow schema exprs) with fault' | back <;> rfl

theorem groupProcess_takes {keys : List String} {aggregates : List Aggregate} {emptyRow : Bool}
    {batchRows : Nat} {p : Process (List Group)}
    (h : groupProcess keys aggregates emptyRow batchRows schema = .ok p) :
    ∃ take, Takes schema take p := by
  obtain ⟨g, _, h⟩ := bind_ok h
  cases h
  refine ⟨fun groups rows => (rows.foldlM g.addRow groups).toOption.map (·, []), fun s x _ => ?_, rfl,
    fun s xs ys => ?_⟩
  · rcases hrows : x.rows.foldlM g.addRow s with fault | groups
    · simp [heard, hrows, Except.toOption, Except.mapError, bind, Except.bind]
    · simp [heard, hrows, Except.toOption, Except.mapError, bind, Except.bind, pure, Except.pure, rowsOf]
  · rw [List.foldlM_append]
    rcases xs.foldlM g.addRow s with fault | groups
    · rfl
    · rw [ok_bind]
      rcases hall : ys.foldlM g.addRow groups with fault | all <;>
        simp [andThen, Except.toOption, hall]

/-- Whether so many rows are not beyond a limit. -/
def withinLimit (limit : Option Nat) (count : Nat) : Bool := limit.all (count ≤ ·)

theorem withinLimit_mono {limit : Option Nat} {m n : Nat} (hle : m ≤ n)
    (h : withinLimit limit n = true) : withinLimit limit m = true := by
  cases limit with
  | none => rfl
  | some k => exact decide_eq_true (Nat.le_trans hle (of_decide_eq_true h))

/-- A buffer takes rows if it may grow so far and each of them gets its keys. -/
def bufferRows (limit : Option Nat) (key : Row → Except OperatorError Row) (buffer : Split)
    (rows : List Row) : Option (Split × List Row) :=
  if withinLimit limit (buffer.rowCount + rows.length) then
    (rows.mapM key).toOption.map fun keyed => ({ buffer with rows := buffer.rows ++ keyed }, [])
  else none

theorem bufferRows_append (limit : Option Nat) (key : Row → Except OperatorError Row)
    (buffer : Split) (xs ys : List Row) : bufferRows limit key buffer (xs ++ ys) =
      andThen (bufferRows limit key buffer xs) fun t => bufferRows limit key t ys := by
  rcases hx : xs.mapM key with fault | front
  · simp only [bufferRows, List.mapM_append, hx]
    split <;> split <;> rfl
  · have hfront : bufferRows limit key buffer xs =
        if withinLimit limit (buffer.rowCount + xs.length) then
          some ({ buffer with rows := buffer.rows ++ front }, [])
        else none := by
      rw [bufferRows, hx]
      rfl
    have hback : bufferRows limit key { buffer with rows := buffer.rows ++ front } ys =
        if withinLimit limit (buffer.rowCount + (xs ++ ys).length) then
          (ys.mapM key).toOption.map fun back =>
            ({ buffer with rows := buffer.rows ++ front ++ back }, [])
        else none := by
      have hlength : (buffer.rows ++ front).length + ys.length =
          buffer.rowCount + (xs ++ ys).length := by
        rw [List.length_append, List.length_append, (mapM_ok hx).length_eq, Split.rowCount,
          Nat.add_assoc]
      rw [← hlength]
      rfl
    rw [hfront, bufferRows, List.mapM_append, hx, ok_bind]
    by_cases hroom : withinLimit limit (buffer.rowCount + xs.length) = true
    · rw [if_pos hroom, andThen_start, hback]
      rcases ys.mapM key with fault | back
      · rfl
      · simp [Except.toOption, bind, Except.bind, pure, Except.pure]
    · -- what does not fit with the front alone does not fit with all
      have hall : ¬withinLimit limit (buffer.rowCount + (xs ++ ys).length) = true := fun h =>
        hroom (withinLimit_mono (by simp) h)
      rw [if_neg hroom, if_neg hall]
      rfl

theorem localSortProcess_takes {items : List SortItem} {limit : Option Nat} {p : Process Split}
    (h : localSortProcess items limit schema = .ok p) : ∃ take, Takes schema take p := by
  obtain ⟨output, _, h⟩ := bind_ok h
  cases h
  refine ⟨bufferRows limit fun r => keyRow schema items r >>= fitting output.columns.length,
    fun buffer x hx => ?_, ?_, bufferRows_append _ _⟩
  · subst hx
    cases limit with
    | none =>
      simp only [bufferRows, withinLimit, Option.all_none, if_true]
      rcases x.rows.mapM fun r => keyRow x.schema items r >>= fitting output.columns.length with
        fault | rows <;> rfl
    | some n =>
      simp only [bufferRows, withinLimit, Option.all_some, decide_eq_true_eq, ← not_lt]
      by_cases hn : n < buffer.rowCount + x.rowCount
      · have hmore : ¬¬n < buffer.rowCount + x.rows.length := not_not.mpr hn
        rw [if_pos hn, if_neg hmore]
        rfl
      · have hroom : ¬n < buffer.rowCount + x.rows.length := hn
        rw [if_neg hn, if_pos hroom]
        rcases x.rows.mapM fun r => keyRow x.schema items r >>= fitting output.columns.length with
          fault | rows <;> rfl
  · have hnone : withinLimit limit 0 = true := by cases limit <;> simp [withinLimit]
    simp [bufferRows, Split.rowCount, hnone, Except.toOption, pure, Except.pure]

theorem limitProcess_takes {count : Nat} {p : Process Nat} (h : limitProcess count schema = .ok p) :
    Takes schema (fun wanted rows => some (wanted - rows.length, rows.take wanted)) p := by
  cases h
  refine ⟨fun wanted x _ => ?_, by simp, fun wanted xs ys => ?_⟩
  · rcases hwanted : wanted with _ | n
    · simp [heard, Except.toOption, rowsOf, Split.rowCount]
    · simp [heard, Except.toOption, rowsOf_unlessEmpty, Split.rowCount, Split.slice]
  · simp only [andThen, Option.bind_some, Option.map_some, List.take_append, List.length_append,
      Nat.sub_sub]

theorem unionProcess_takes {p : Process Unit} (h : unionProcess schema = .ok p) :
    Takes schema (fun _ rows => some ((), rows)) p := by
  cases h
  exact ⟨fun _ x _ => by simp [heard, Except.toOption, rowsOf], rfl, fun _ xs ys => rfl⟩

end Single

namespace Cursor

/-- What is left of an input, however it is cut: its rows and how it ends. -/
abbrev Ahead := List Row × Option OperatorError

def ahead (c : Cursor) : Ahead := (c.rest, c.fault)

def Ahead.next : Ahead → Except OperatorError (Option Row × Ahead)
  | (r :: rows, fault) => .ok (some r, (rows, fault))
  | ([], some e) => .error e
  | ([], none) => .ok (none, ([], none))

theorem nextFrom_ahead (fault : Option OperatorError) (splits : List Split) :
    (nextFrom fault splits).map (Prod.map id ahead) = Ahead.next (rowsOf splits, fault) := by
  induction splits with
  | nil => cases fault <;> rfl
  | cons s splits ih =>
    rw [rowsOf_cons, nextFrom]
    rcases hs : s.rows with _ | ⟨r, rows⟩
    · exact ih
    · rfl

/-- A cursor goes from row to row and does not stop at the end of a split. -/
theorem next_ahead (c : Cursor) : c.next.map (Prod.map id ahead) = c.ahead.next := by
  rw [ahead, rest, next]
  rcases hc : c.rows with _ | ⟨r, rows⟩
  · exact nextFrom_ahead c.fault c.splits
  · rfl

theorem next_of_ahead {c d : Cursor} (h : c.ahead = d.ahead) :
    (∃ e, c.next = .error e ∧ d.next = .error e) ∨
      ∃ head c' d', c.next = .ok (head, c') ∧ d.next = .ok (head, d') ∧ c'.ahead = d'.ahead := by
  have hnext := (next_ahead c).trans ((congrArg Ahead.next h).trans (next_ahead d).symm)
  rcases hc : c.next with e | ⟨head, c'⟩ <;> rcases hd : d.next with e' | ⟨head', d'⟩ <;>
    rw [hc, hd] at hnext
  · exact .inl ⟨e, rfl, by rw [Except.error.inj hnext]⟩
  · cases hnext
  · cases hnext
  · obtain ⟨hhead, hahead⟩ := Prod.mk.inj (Except.ok.inj hnext)
    exact .inr ⟨head, c', d', rfl, by rw [show head = head' from hhead], hahead⟩

end Cursor

open Cursor (ahead)

theorem mergeRows_ahead (columns fuel : Nat) (heads : Heads) {cs ds : List Cursor}
    (h : cs.map ahead = ds.map ahead) :
    mergeRows columns fuel heads cs = mergeRows columns fuel heads ds := by
  induction fuel generalizing heads cs ds with
  | zero => rfl
  | succ fuel ih =>
    rw [mergeRows, mergeRows]
    rcases heads.least? with _ | ⟨i, r⟩
    · rfl
    have hi := congrArg (·[i]?) h
    simp only [List.getElem?_map] at hi
    rcases hc : cs[i]? with _ | c <;> rcases hd : ds[i]? with _ | d <;> rw [hc, hd] at hi
    · simp only [hc, hd]
    · cases hi
    · cases hi
    · rcases Cursor.next_of_ahead (Option.some.inj hi) with
        ⟨e, hc', hd'⟩ | ⟨head, c', d', hc', hd', hnext⟩
      · simp only [hc, hd, hc', hd']
        rfl
      · have hrest : (cs.set i c').map ahead = (ds.set i d').map ahead := by
          rw [List.map_set, List.map_set, h, hnext]
        simp only [hc, hd, hc', hd', ok_bind]
        rcases fitting columns r.withoutKeys with e | row
        · rfl
        · simp only [ok_bind, pure, Except.pure, ih (heads.set i head) hrest]

theorem firstRows_ahead {cs ds : List Cursor} (h : cs.map ahead = ds.map ahead) :
    (∃ e, firstRows cs = .error e ∧ firstRows ds = .error e) ∨
      ∃ heads cs' ds', firstRows cs = .ok (heads, cs') ∧ firstRows ds = .ok (heads, ds') ∧
        cs'.map ahead = ds'.map ahead := by
  induction cs generalizing ds with
  | nil =>
    obtain rfl := List.map_eq_nil_iff.mp h.symm
    exact .inr ⟨[], [], [], rfl, rfl, rfl⟩
  | cons c cs ih =>
    cases ds with
    | nil => cases h
    | cons d ds =>
      obtain ⟨hhead, htail⟩ := List.cons.inj h
      rcases Cursor.next_of_ahead hhead with ⟨e, hc, hd⟩ | ⟨head, c', d', hc, hd, hnext⟩
      · exact .inl ⟨e, by rw [firstRows, hc]; rfl, by rw [firstRows, hd]; rfl⟩
      · rcases ih htail with ⟨e, hcs, hds⟩ | ⟨heads, cs', ds', hcs, hds, hrest⟩
        · refine .inl ⟨e, ?_, ?_⟩
          · rw [firstRows, hc, ok_bind, hcs]
            rfl
          · rw [firstRows, hd, ok_bind, hds]
            rfl
        · refine .inr ⟨head :: heads, c' :: cs', d' :: ds', ?_, ?_, ?_⟩
          · rw [firstRows, hc, ok_bind, hcs]
            rfl
          · rw [firstRows, hd, ok_bind, hds]
            rfl
          · rw [List.map_cons, List.map_cons, hnext, hrest]

theorem mergeSchema_recut (items : List SortItem) {fs gs : List Feed}
    (h : List.Forall₂ Feed.Recut fs gs) (first : Option Schema) :
    mergeSchema items first fs = mergeSchema items first gs := by
  induction h generalizing first with
  | nil => rfl
  | cons hfg _ ih => simp only [mergeSchema, hfg.schema_eq, ih]

theorem cursors_recut {fs gs : List Feed} (h : List.Forall₂ Feed.Recut fs gs) :
    (fs.map Cursor.ofFeed).map ahead = (gs.map Cursor.ofFeed).map ahead ∧
      countRows (fs.flatMap (·.splits)) = countRows (gs.flatMap (·.splits)) := by
  induction h with
  | nil => exact ⟨rfl, rfl⟩
  | @cons f g fs gs hfg _ ih =>
    have hhead : (Cursor.ofFeed f).ahead = (Cursor.ofFeed g).ahead :=
      Prod.ext hfg.rows_eq.symm hfg.fault_eq.symm
    refine ⟨List.cons_eq_cons.mpr ⟨hhead, ih.1⟩, ?_⟩
    rw [List.flatMap_cons, List.flatMap_cons, countRows_append, countRows_append, ih.2,
      ← length_rowsOf f.splits, ← hfg.rows_eq, length_rowsOf]

/-- The rows of sorted inputs are merged in one way, however they are cut. -/
theorem runMerge_recut (items : List SortItem) (batchRows : Nat) {fs gs : List Feed}
    (h : List.Forall₂ Feed.Recut fs gs) : runMerge items batchRows fs = runMerge items batchRows gs := by
  obtain ⟨hahead, hcount⟩ := cursors_recut h
  rw [runMerge, runMerge, mergeSchema_recut items h]
  rcases mergeSchema items none gs with e | _ | schema
  · rfl
  · rfl
  · simp only [mergeInto, hcount]
    rcases firstRows_ahead hahead with ⟨e, hf, hg⟩ | ⟨heads, cs, ds, hf, hg, hrest⟩
    · rw [hf, hg]
    · simp only [hf, hg, mergeRows_ahead _ _ _ hrest]

theorem Emission.agrees_self (e : Emission) : e.Agrees e := by
  rcases h : e.outcome with fault | stats
  · exact .failed h h
  · exact .written h h rfl rfl

/-- What an operator makes of its input does not depend on how the rows are cut into splits, for any
operator over one input and for a merge over any number of them: both runs fail, or both write the
same rows, with the same keys and flags, under the same schema. -/
theorem run_recut (w : Workplace) (arrival arrival' : List Nat) :
    (∀ (op : Operator) (f g : Feed), f.Recut g →
      (op.run w arrival [f]).Agrees (op.run w arrival' [g])) ∧
    ∀ (items : List SortItem) (fs gs : List Feed), List.Forall₂ Feed.Recut fs gs →
      ((Operator.merge items).run w arrival fs).Agrees ((Operator.merge items).run w arrival' gs) := by
  refine ⟨fun op f g h => ?_, fun items fs gs h => ?_⟩
  · cases op with
    | scan part => exact .failed rfl rfl
    | filter predicate => exact Process.runOn_recut (fun _ _ hp => ⟨_, filterProcess_takes hp⟩) h
    | project exprs => exact Process.runOn_recut (fun _ _ hp => ⟨_, projectProcess_takes hp⟩) h
    | group keys aggregates emptyRow =>
      exact Process.runOn_recut (fun _ _ hp => groupProcess_takes hp) h
    | localSort items => exact Process.runOn_recut (fun _ _ hp => localSortProcess_takes hp) h
    | merge items =>
      have hmerge := runMerge_recut items w.batchRows (.cons h .nil)
      exact (congrArg (Emission.Agrees _) hmerge).mp (Emission.agrees_self _)
    | limit count => exact Process.runOn_recut (fun _ _ hp => ⟨_, limitProcess_takes hp⟩) h
    | union => exact Process.runOn_recut (fun _ _ hp => ⟨_, unionProcess_takes hp⟩) h
  · have hmerge := runMerge_recut items w.batchRows h
    exact (congrArg (Emission.Agrees _) hmerge).mp (Emission.agrees_self _)

section Numbers

/-- Rows of numbers in splits of which each has some of them. -/
def cutNumbers (schema : Schema) (row : Int64 → Row) (cuts : List (List Int64)) : Feed :=
  .ofSplits schema (cuts.map fun ns => { schema, rows := ns.map row })

theorem cutNumbers_recut (schema : Schema) (row : Int64 → Row) (cuts cuts' : List (List Int64))
    (h : cuts'.flatten = cuts.flatten) :
    (cutNumbers schema row cuts).Recut (cutNumbers schema row cuts') where
  schema_eq := rfl
  fault_eq := rfl
  under s hs x hx := by
    obtain rfl : schema = s := Except.ok.inj hs
    rcases List.mem_append.mp hx with hx | hx
    all_goals
      obtain ⟨_, _, rfl⟩ := List.mem_map.mp hx
      rfl
  rows_eq := by
    have hrows : ∀ cuts, rowsOf (cutNumbers schema row cuts).splits = cuts.flatten.map row := fun cuts => by
      rw [cutNumbers, Feed.ofSplits, rowsOf, List.flatMap_map, List.map_flatten, List.flatMap_def]
    rw [hrows, hrows, h]

/-- Three numbers are sorted, and two sorted inputs are merged, with splits that end elsewhere or hold
nothing. -/
theorem run_recut_numbers :
    (cutNumbers numbers numberRow [[3, 1], [], [2]]).Recut (cutNumbers numbers numberRow [[3], [1, 2]]) ∧
    ((Operator.localSort byNumber).run (emptyWorkplace 2) []
        [cutNumbers numbers numberRow [[3, 1], [], [2]]]).outcome = .ok ⟨3, 3⟩ ∧
    ((Operator.localSort byNumber).run (emptyWorkplace 2) []
        [cutNumbers numbers numberRow [[3, 1], [], [2]]]).Agrees
      ((Operator.localSort byNumber).run (emptyWorkplace 2) []
        [cutNumbers numbers numberRow [[3], [1, 2]]]) ∧
    ((Operator.merge byNumber).run (emptyWorkplace 2) []
        [cutNumbers (numbers.addKey .int64) keyedNumber [[1, 3]],
          cutNumbers (numbers.addKey .int64) keyedNumber [[], [2]]]).outcome = .ok ⟨3, 3⟩ ∧
    ((Operator.merge byNumber).run (emptyWorkplace 2) []
        [cutNumbers (numbers.addKey .int64) keyedNumber [[1, 3]],
          cutNumbers (numbers.addKey .int64) keyedNumber [[], [2]]]).Agrees
      ((Operator.merge byNumber).run (emptyWorkplace 2) []
        [cutNumbers (numbers.addKey .int64) keyedNumber [[1], [], [3]],
          cutNumbers (numbers.addKey .int64) keyedNumber [[2]]]) := by
  obtain ⟨hone, hmerge⟩ := run_recut (emptyWorkplace 2) [] []
  have hcut := cutNumbers_recut numbers numberRow [[3, 1], [], [2]] [[3], [1, 2]] rfl
  refine ⟨hcut, by decide +kernel, hone _ _ _ hcut, by decide +kernel, hmerge _ _ _ (.cons ?_ (.cons ?_ .nil))⟩
  · exact cutNumbers_recut _ _ _ _ rfl
  · exact cutNumbers_recut _ _ _ _ rfl

end Numbers
end QueryCluster
