import Mathlib.Data.List.Perm.Basic
import QueryCluster.Operator.Run
import QueryCluster.Proofs.Expr.Typing
import QueryCluster.Proofs.Operator.Routing
import QueryCluster.Proofs.Plan.Meaning

/-!
# Operators that treat rows apart

Filters, projections and unions do something to each row, whatever the split it comes in and
whatever came before. So it does not matter how rows are dealt out to operators of this kind: what
they write together is what one of them would make of all rows.
-/
namespace QueryCluster

/-- What an operator wrote, up to the order of rows. -/
structure Emission.Gives (e : Emission) (schema : Schema) (rows : List Row) : Prop where
  schema_eq : e.schema = some schema
  splits : ∀ s ∈ e.splits, s.Under schema
  rows : (rowsOf e.splits).Perm rows

/-- A function that treats rows apart. -/
structure Rowwise (f : List Row → Except OperatorError (List Row)) : Prop where
  nil : f [] = .ok []
  append : ∀ xs ys us vs, f xs = .ok us → f ys = .ok vs → f (xs ++ ys) = .ok (us ++ vs)
  perm : ∀ xs ys us, xs.Perm ys → f xs = .ok us → ∃ vs, f ys = .ok vs ∧ us.Perm vs

/-- What is made of rows that were dealt out is what is made of all rows. -/
theorem Rowwise.workers {f : List Row → Except OperatorError (List Row)} (hf : Rowwise f) {n : Nat}
    {rows : List Row} {share out : Nat → List Row} (hp : rows.Perm ((List.range n).flatMap share))
    (h : ∀ i < n, f (share i) = .ok (out i)) :
    ∃ all, f rows = .ok all ∧ ((List.range n).flatMap out).Perm all := by
  have hparts : ∀ is : List Nat, (∀ i ∈ is, f (share i) = .ok (out i)) →
      f (is.flatMap share) = .ok (is.flatMap out) := by
    intro is his
    induction is with
    | nil => exact hf.nil
    | cons i is ih =>
      exact hf.append _ _ _ _ (his i List.mem_cons_self)
        (ih fun j hj => his j (List.mem_cons_of_mem i hj))
  exact hf.perm _ _ _ hp.symm (hparts _ fun i hi => h i (List.mem_range.mp hi))

theorem rowwise_same : Rowwise fun rows => .ok rows where
  nil := rfl
  append xs ys us vs hx hy := by
    cases hx
    cases hy
    rfl
  perm xs ys us h hx := by
    cases hx
    exact ⟨ys, rfl, h⟩

theorem rowwise_mapM (g : Row → Except OperatorError Row) : Rowwise fun rows => rows.mapM g where
  nil := rfl
  append _ _ _ _ := mapM_append_ok
  perm _ _ _ := mapM_perm_ok

section KeepRows

variable {test : Row → Except OperatorError Bool}

theorem keepRows_cons_ok {r : Row} {rows out : List Row} (h : keepRows test (r :: rows) = .ok out) :
    ∃ keep rest, test r = .ok keep ∧ keepRows test rows = .ok rest ∧
      out = if keep then r :: rest else rest := by
  obtain ⟨keep, hkeep, h⟩ := bind_ok h
  obtain ⟨rest, hrest, h⟩ := bind_ok h
  exact ⟨keep, rest, hkeep, hrest, (Except.ok.inj h).symm⟩

theorem keepRows_cons {r : Row} {rows rest : List Row} {keep : Bool} (ht : test r = .ok keep)
    (hr : keepRows test rows = .ok rest) :
    keepRows test (r :: rows) = .ok (if keep then r :: rest else rest) := by
  rw [keepRows, ht, hr]
  rfl

theorem keepRows_sublist {rows out : List Row} (h : keepRows test rows = .ok out) :
    out.Sublist rows := by
  induction rows generalizing out with
  | nil =>
    cases h
    exact .slnil
  | cons r rows ih =>
    obtain ⟨keep, rest, _, hrest, rfl⟩ := keepRows_cons_ok h
    cases keep with
    | true => exact (ih hrest).cons_cons r
    | false => exact (ih hrest).cons r

theorem rowwise_keepRows (test : Row → Except OperatorError Bool) : Rowwise (keepRows test) where
  nil := rfl
  append xs ys us vs hx hy := by
    induction xs generalizing us with
    | nil =>
      cases hx
      exact hy
    | cons x xs ih =>
      obtain ⟨keep, rest, hkeep, hrest, rfl⟩ := keepRows_cons_ok hx
      rw [List.cons_append, keepRows_cons hkeep (ih rest hrest)]
      cases keep <;> rfl
  perm xs ys us h hx := by
    induction h generalizing us with
    | nil => exact ⟨us, hx, .refl _⟩
    | cons x _ ih =>
      obtain ⟨keep, rest, hkeep, hrest, rfl⟩ := keepRows_cons_ok hx
      obtain ⟨vs, hvs, hperm⟩ := ih rest hrest
      refine ⟨_, keepRows_cons hkeep hvs, ?_⟩
      cases keep with
      | true => exact hperm.cons x
      | false => exact hperm
    | swap x y l =>
      obtain ⟨ky, resty, hky, hy, rfl⟩ := keepRows_cons_ok hx
      obtain ⟨kx, rest, hkx, hrest, rfl⟩ := keepRows_cons_ok hy
      refine ⟨_, keepRows_cons hkx (keepRows_cons hky hrest), ?_⟩
      cases kx <;> cases ky
      · exact .refl _
      · exact .refl _
      · exact .refl _
      · exact .swap x y rest
    | trans _ _ ih₁ ih₂ =>
      obtain ⟨vs, hvs, h₁⟩ := ih₁ us hx
      obtain ⟨ws, hws, h₂⟩ := ih₂ vs hvs
      exact ⟨ws, hws, h₁.trans h₂⟩

end KeepRows

/-- A process that answers each split on its own. -/
structure Treats (schema output : Schema) (f : List Row → Except OperatorError (List Row))
    (p : Process Unit) : Prop where
  schema_eq : p.schema = output
  finish : p.finish () = []
  step : ∀ s u out, s.Under schema → p.step () s = .ok (u, out) →
    f s.rows = .ok (rowsOf out) ∧ ∀ t ∈ out, t.Under output

section Run

variable {schema output : Schema} {f : List Row → Except OperatorError (List Row)}

theorem Treats.answer {p : Process Unit} (hp : Treats schema output f p) (hf : Rowwise f)
    {splits out : List Split} {u u' : Unit} (hu : ∀ s ∈ splits, s.Under schema)
    (h : p.answer u splits = (out, .ok u')) :
    f (rowsOf splits) = .ok (rowsOf out) ∧ ∀ t ∈ out, t.Under output := by
  induction splits generalizing out with
  | nil =>
    cases h
    exact ⟨hf.nil, by simp⟩
  | cons s splits ih =>
    rw [Process.answer] at h
    rcases hs : p.step u s with e | ⟨v, first⟩
    · rw [hs] at h
      cases h
    rw [hs] at h
    rcases hr : p.answer v splits with ⟨rest, r⟩
    simp only [hr] at h
    cases h
    obtain ⟨hfirst, hunder⟩ := hp.step s v first (hu s List.mem_cons_self) hs
    obtain ⟨hrest, hunderRest⟩ := ih (fun t ht => hu t (List.mem_cons_of_mem s ht)) hr
    refine ⟨?_, fun t ht => (List.mem_append.mp ht).elim (hunder t) (hunderRest t)⟩
    rw [rowsOf_cons, rowsOf_append]
    exact hf.append _ _ _ _ hfirst hrest

/-- What a process of this kind makes of its inputs. -/
theorem Rowwise.run_ok (hf : Rowwise f) {process : Schema → Except OperatorError (Process Unit)}
    (hp : ∀ p, process schema = .ok p → Treats schema output f p) {arrival : List Nat}
    {feeds : List Feed} {stats : Stats} (hu : ∀ g ∈ feeds, g.Under schema)
    (h : (Process.runOn process (Feed.gather arrival feeds)).outcome = .ok stats) :
    ∃ out, f (Feed.rows feeds) = .ok out ∧
      (Process.runOn process (Feed.gather arrival feeds)).Gives output out := by
  obtain ⟨given, p, hgiven, hne, hended, splits, u, out, hperm, ha, hschema, hsplits⟩ :=
    Process.runOn_gather_ok h
  obtain rfl : given = schema := by
    obtain ⟨g, hg⟩ := List.exists_mem_of_ne_nil feeds hne
    exact (hu g hg).schema_eq given (hended g hg).schema_eq
  have htreats := hp p hgiven
  obtain ⟨hrows, hunder⟩ := htreats.answer hf (fun s hs => Feed.under_of_perm hu hperm hs) ha
  obtain ⟨vs, hvs, hout⟩ := hf.perm _ _ _ (Feed.rowsOf_perm hperm) hrows
  have hall : (Process.runOn process (Feed.gather arrival feeds)).splits = out := by
    rw [hsplits, show p.finish u = [] from htreats.finish, List.append_nil]
  refine ⟨vs, hvs, ⟨hschema.trans (congrArg some htreats.schema_eq), ?_, ?_⟩⟩
  · rw [hall]
    exact hunder
  · rw [hall]
    exact hout

end Run

theorem Row.settled_of_fits {r : Row} {s : Schema} (h : r.Fits s) (hk : s.keys = []) :
    r.settled s.keys.length = r := by
  rcases r with ⟨values, keys, flags⟩
  obtain ⟨_, hkeys, hflags⟩ := h
  rw [hk] at hkeys hflags
  obtain rfl : keys = [] := List.length_eq_zero_iff.mp hkeys
  obtain rfl : flags = [] := List.length_eq_zero_iff.mp hflags
  rw [hk]
  rfl

/-- Rows without keys are kept as they are. -/
theorem keptRows_eq {s : Schema} {predicates : List Expr} {rows : List Row} (hk : s.keys = [])
    (hr : ∀ r ∈ rows, r.Fits s) :
    keptRows s predicates rows = keepRows (fun r => keepsAll s r.values predicates) rows := by
  induction rows with
  | nil => rfl
  | cons r rows ih =>
    rw [keptRows, keepRows, ih fun t ht => hr t (List.mem_cons_of_mem r ht),
      Row.settled_of_fits (hr r List.mem_cons_self) hk]

theorem filter_ok {schema : Schema} {predicates : List Expr} {s kept : Split} (hs : s.Under schema)
    (hk : schema.keys = []) (h : s.filter predicates = .ok kept) :
    keepRows (fun r => keepsAll schema r.values predicates) s.rows = .ok kept.rows ∧
      kept.Under schema := by
  obtain ⟨rfl, hw⟩ := hs
  obtain ⟨rows, hrows, h⟩ := bind_ok h
  cases h
  rw [keptRows_eq hk hw] at hrows
  exact ⟨hrows, rfl, fun r hr => hw r ((keepRows_sublist hrows).subset hr)⟩

theorem filterProcess_treats {schema : Schema} {predicate : Expr} {p : Process Unit}
    (hk : schema.keys = []) (h : filterProcess predicate schema = .ok p) :
    Treats schema schema (keepRows fun r => keepsAll schema r.values [predicate]) p := by
  obtain ⟨_, _, h⟩ := bind_ok h
  cases h
  refine ⟨rfl, rfl, fun s u out hs h => ?_⟩
  obtain ⟨kept, hkept, h⟩ := bind_ok h
  cases h
  obtain ⟨hrows, hunder⟩ := filter_ok hs hk hkept
  rw [rowsOf_unlessEmpty]
  exact ⟨hrows, fun t ht => Router.mem_unlessEmpty ht ▸ hunder⟩

theorem unionProcess_treats {schema : Schema} {p : Process Unit} (h : unionProcess schema = .ok p) :
    Treats schema schema (fun rows => .ok rows) p := by
  cases h
  refine ⟨rfl, rfl, fun s u out hs h => ?_⟩
  cases h
  simp [hs]

theorem Field.eq_of_typed {ε : Type} {f g : Field} {t : Except ε DataType} (hname : f.name = g.name)
    (hf : t = .ok f.type) (hg : t = .ok g.type) : f = g := by
  rcases f with ⟨name, type⟩
  rcases g with ⟨name', type'⟩
  obtain rfl : name = name' := hname
  obtain rfl : type = type' := Except.ok.inj (hf.symm.trans hg)
  rfl

/-- A column of a projection. -/
structure Projects (schema : Schema) (e : NamedExpr) (f : Field) : Prop where
  name : f.name = e.name
  type : e.expr.typeOf schema = .ok f.type

theorem Projects.field_unique {schema : Schema} {e : NamedExpr} {f g : Field}
    (hf : Projects schema e f) (hg : Projects schema e g) : f = g :=
  Field.eq_of_typed (hf.name.trans hg.name.symm) hf.type hg.type

theorem Projects.unique {schema : Schema} {exprs : List NamedExpr} {fs gs : List Field}
    (hf : List.Forall₂ (Projects schema) exprs fs) (hg : List.Forall₂ (Projects schema) exprs gs) :
    fs = gs := by
  have hunique : Relator.RightUnique (Projects schema) := fun _ _ _ => Projects.field_unique
  exact List.right_unique_forall₂' hunique hf hg

/-- The columns of a projection, as the schema of the stage has them. -/
theorem projects_ok {s output : Schema} {exprs : List NamedExpr}
    (h : (Stage.project exprs).schemaOver s = .ok output) :
    ∃ columns, List.Forall₂ (Projects s) exprs columns ∧ output = { columns } := by
  obtain ⟨columns, hcolumns, h⟩ := bind_ok h
  cases h
  refine ⟨columns, (mapM_ok hcolumns).imp fun e f hf => ?_, rfl⟩
  obtain ⟨t, ht, hf⟩ := bind_ok hf
  cases hf
  exact ⟨rfl, mapError_ok ht⟩

theorem projectProcess_treats {schema : Schema} {exprs : List NamedExpr} {p : Process Unit}
    (h : projectProcess exprs schema = .ok p) :
    ∃ columns, List.Forall₂ (Projects schema) exprs columns ∧
      Treats schema { columns } (fun rows => rows.mapM (projectRow schema exprs)) p := by
  obtain ⟨columns, hcolumns, h⟩ := bind_ok h
  cases h
  have hall : List.Forall₂ (Projects schema) exprs columns := by
    refine (mapM_ok hcolumns).imp fun e f hf => ?_
    obtain ⟨t, ht, hf⟩ := bind_ok hf
    cases hf
    exact ⟨rfl, mapError_ok ht⟩
  refine ⟨columns, hall, rfl, rfl, fun s u out hs h => ?_⟩
  obtain ⟨rows, hrows, h⟩ := bind_ok h
  cases h
  refine ⟨by simpa using hrows, fun t ht => ?_⟩
  rw [List.mem_singleton.mp ht]
  refine ⟨rfl, fun r hr => ?_⟩
  obtain ⟨old, _, hold⟩ := exists_of_forall₂ (mapM_ok hrows) hr
  obtain ⟨values, hvalues, hold⟩ := bind_ok hold
  cases hold
  have hlen := (mapM_ok hvalues).length_eq
  exact ⟨by rw [List.length_map, ← hlen, hall.length_eq], rfl, rfl⟩

end QueryCluster
