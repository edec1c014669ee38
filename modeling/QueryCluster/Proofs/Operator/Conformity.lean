import QueryCluster.Proofs.Operator.Faults
import QueryCluster.Proofs.Operator.Rowwise

/-!
# Rows that conform to a schema

Under the schema that its input is known to have an operator finds all its columns, and every value that it
writes is null or of the type of its column. Both also hold of a run that fails half way. So no operator
that meets such inputs only can find fault with a schema.
-/
namespace QueryCluster

/-- A fault that finds columns missing or other than they should be. -/
def OperatorError.OfSchema : OperatorError → Prop
  | .mismatch _ | .split (.shape _) => True
  | .expr (.base _) | .expr (.invalid _) | .expr (.expr (.unknownColumn _)) => True
  | _ => False

/-- Whatever fails, it is not the schema. -/
abbrev SchemaSafe {α : Type} (x : Except OperatorError α) : Prop := FailsWith (fun e => ¬ e.OfSchema) x

theorem ExprFault.OfOperands.ofExpr {f : ExprFault} (h : f.OfOperands) :
    ¬ (OperatorError.ofExpr f).OfSchema := by
  cases h with
  | incomparable => exact id
  | notBoolean => exact id

theorem schemaSafe_ofExpr {α : Type} {x : Except ExprFault α} (h : FailsWith ExprFault.OfOperands x) :
    SchemaSafe (x.mapError .ofExpr) := FailsWith.mapError fun e he => (h e he).ofExpr

/-- A row that fits a schema, with values of the types of its columns. -/
structure Row.Conforms (schema : Schema) (r : Row) : Prop where
  fits : r.Fits schema
  values : List.Forall₂ (fun (f : Field) v => Value.Fits v f.type) schema.columns r.values

structure Split.Conforms (schema : Schema) (s : Split) : Prop where
  schema_eq : s.schema = schema
  rows : ∀ r ∈ s.rows, r.Conforms schema

/-- A feed that gives conforming splits, if it has a schema, and may break off on its way. -/
structure Feed.Conforms (schema : Schema) (f : Feed) : Prop where
  refused : SchemaSafe f.schema
  schema_eq : ∀ s, f.schema = .ok s → s = schema
  splits : ∀ s, f.schema = .ok s → ∀ x ∈ f.splits, x.Conforms schema
  fault : ∀ s, f.schema = .ok s → ∀ e ∈ f.fault, ¬ e.OfSchema

structure Emission.Conforms (schema : Schema) (e : Emission) : Prop where
  schema_eq : ∀ s, e.schema = some s → s = schema
  splits : ∀ x ∈ e.splits, x.Conforms schema
  outcome : SchemaSafe e.outcome

section Rows

variable {schema : Schema} {r : Row} {s : Split}

theorem Row.Conforms.typed (h : r.Conforms schema) (hk : schema.keys = []) : r.Typed schema.columns := by
  obtain ⟨⟨_, hkeys, hflags⟩, hvalues⟩ := h
  rw [hk] at hkeys hflags
  exact ⟨hvalues, List.length_eq_zero_iff.mp hkeys, List.length_eq_zero_iff.mp hflags⟩

theorem Row.Typed.conforms (schema : Schema) (h : r.Typed schema.columns) (hk : schema.keys = []) :
    r.Conforms schema := by
  refine ⟨⟨h.values.length_eq.symm, ?_, ?_⟩, h.values⟩
  · rw [h.keys, hk]
    rfl
  · rw [h.flags, hk]
    rfl

theorem Row.Conforms.withoutKeys (h : r.Conforms schema) : r.withoutKeys.Typed schema.columns :=
  ⟨h.values, rfl, rfl⟩

theorem Row.Conforms.settled (h : r.Conforms schema) : (r.settled schema.keys.length).Conforms schema :=
  ⟨⟨h.fits.1, by simp [Row.settled, Row.withKeys], by simp [Row.settled, Row.withKeys]⟩, h.values⟩

theorem Split.Conforms.under (h : s.Conforms schema) : s.Under schema := by
  obtain ⟨rfl, hrows⟩ := h
  exact ⟨rfl, fun r hr => (hrows r hr).fits⟩

theorem Split.Conforms.mono (h : s.Conforms schema) {rows : List Row} (hr : ∀ r ∈ rows, r ∈ s.rows) :
    Split.Conforms schema { s with rows } := ⟨h.schema_eq, fun r hmem => h.rows r (hr r hmem)⟩

theorem conforms_batches (h : s.Conforms schema) {n : Nat} (hn : 0 < n) :
    ∀ b ∈ StreamWriter.batches s n, b.Conforms schema := by
  intro b hb
  refine ⟨(StreamWriter.batches_under h.under hn hb).schema_eq, fun r hr => h.rows r ?_⟩
  rw [← StreamWriter.rowsOf_batches s hn]
  exact List.mem_flatMap.mpr ⟨b, hb, hr⟩

end Rows

namespace Feed

variable {schema : Schema}

/-- Whatever is true of all splits and faults of some feeds is true of what arrives of them together. -/
theorem interleave_all {P : Split → Prop} {Q : OperatorError → Prop} (arrival : List Nat)
    {feeds : List Feed} (hs : ∀ f ∈ feeds, ∀ s ∈ f.splits, P s) (hf : ∀ f ∈ feeds, ∀ e ∈ f.fault, Q e) :
    (∀ s ∈ (interleave arrival feeds).1, P s) ∧ ∀ e ∈ (interleave arrival feeds).2, Q e := by
  fun_induction interleave arrival feeds with
  | case1 feeds =>
    fun_induction drain feeds with
    | case1 => simp
    | case2 f feeds e he =>
      exact ⟨hs f List.mem_cons_self, fun e' he' => hf f List.mem_cons_self e' (by rw [he]; exact he')⟩
    | case3 f feeds he splits fault hd ih =>
      rw [hd] at ih
      obtain ⟨hsplits, hfault⟩ := ih (fun g hg => hs g (List.mem_cons_of_mem f hg))
        fun g hg => hf g (List.mem_cons_of_mem f hg)
      refine ⟨fun s hmem => ?_, hfault⟩
      exact (List.mem_append.mp hmem).elim (hs f List.mem_cons_self s) (hsplits s)
  | case2 i arrival feeds hi ih => exact ih hs hf
  | case3 i arrival feeds f hi s rest hsplits splits fault hrest ih =>
    have hmem := List.mem_of_getElem? hi
    have hfirst := hs f hmem
    rw [hsplits] at hfirst
    rw [hrest] at ih
    -- what is left of this feed has lost a split and kept its fault
    obtain ⟨hall, hfault⟩ := ih (fun g hg => by
        rcases List.mem_or_eq_of_mem_set hg with hg | rfl
        · exact hs g hg
        · exact fun t ht => hfirst t (List.mem_cons_of_mem s ht))
      (fun g hg => by
        rcases List.mem_or_eq_of_mem_set hg with hg | rfl
        · exact hf g hg
        · exact hf f hmem)
    exact ⟨List.forall_mem_cons.mpr ⟨hfirst s List.mem_cons_self, hall⟩, hfault⟩
  | case4 i arrival feeds f hi e he =>
    refine ⟨by simp, fun e' he' => hf f (List.mem_of_getElem? hi) e' ?_⟩
    rw [he]
    exact he'
  | case5 i arrival feeds f hi hsplits he ih => exact ih hs hf

theorem commonSchema_conforms {disagree : Schema → Schema → MismatchFault} {first : Option Schema}
    {feeds : List Feed} (hfirst : ∀ s ∈ first, s = schema) (hf : ∀ f ∈ feeds, f.Conforms schema) :
    SchemaSafe (commonSchema disagree first feeds) := by
  induction feeds generalizing first with
  | nil => exact failsWith_ok _
  | cons f feeds ih =>
    obtain ⟨hhead, hrest⟩ := List.forall_mem_cons.mp hf
    rw [commonSchema]
    refine hhead.refused.bind fun s hs => ?_
    obtain rfl := hhead.schema_eq s hs
    cases first with
    | none => exact ih (by simp) hrest
    | some t =>
      obtain rfl : t = s := hfirst t rfl
      simp only [if_true]
      exact ih hfirst hrest

/-- Conforming feeds make one conforming feed. -/
theorem gather_conforms (arrival : List Nat) {feeds : List Feed} (hf : ∀ f ∈ feeds, f.Conforms schema) :
    SchemaSafe (gather arrival feeds) ∧ ∀ f, gather arrival feeds = .ok f → f.Conforms schema := by
  rcases feeds with _ | ⟨f₁, _ | ⟨f₂, rest⟩⟩
  · have hgather : gather arrival [] = .error (.execution .noInput) := rfl
    rw [hgather]
    exact ⟨fun e he => Except.error.inj he ▸ id, fun f h => by cases h⟩
  · have hgather : gather arrival [f₁] = .ok f₁ := rfl
    rw [hgather]
    exact ⟨failsWith_ok f₁, fun f h => Except.ok.inj h ▸ hf f₁ List.mem_cons_self⟩
  · have hcommon := @commonSchema_conforms schema .inputs none _ (by simp) hf
    simp only [gather]
    refine ⟨hcommon.bind fun s _ => ?_, fun f h => ?_⟩
    · cases s with
      | none => exact fun e he => by cases he; exact id
      | some s => exact failsWith_ok _
    · obtain ⟨s, hc, h⟩ := bind_ok h
      cases s with
      | none => cases h
      | some s =>
        cases h
        have hall := (commonSchema_ok hc).2
        obtain ⟨hsplits, hfault⟩ := interleave_all arrival
          (fun f hmem => (hf f hmem).splits s (hall f hmem)) fun f hmem => (hf f hmem).fault s (hall f hmem)
        refine ⟨failsWith_ok s, fun t ht => ?_, fun _ _ => hsplits, fun _ _ => hfault⟩
        cases ht
        exact (hf f₁ List.mem_cons_self).schema_eq s (hall f₁ List.mem_cons_self)

end Feed

namespace Process

variable {σ : Type} {input output : Schema}

/-- A process that answers conforming splits with conforming splits; its state keeps an invariant. -/
structure Conforms (input output : Schema) (inv : σ → Prop) (p : Process σ) : Prop where
  schema_eq : p.schema = output
  start : inv p.start
  safe : ∀ s x, inv s → x.Conforms input → SchemaSafe (p.step s x)
  step : ∀ s x s' out, inv s → x.Conforms input → p.step s x = .ok (s', out) →
    inv s' ∧ ∀ t ∈ out, t.Conforms output
  finish : ∀ s, inv s → ∀ t ∈ p.finish s, t.Conforms output

variable {inv : σ → Prop} {p : Process σ}

theorem Conforms.answer (hp : p.Conforms input output inv) {splits : List Split} {s : σ} (hs : inv s)
    (hx : ∀ x ∈ splits, x.Conforms input) :
    (∀ t ∈ (p.answer s splits).1, t.Conforms output) ∧ SchemaSafe (p.answer s splits).2 ∧
      ∀ s', (p.answer s splits).2 = .ok s' → inv s' := by
  induction splits generalizing s with
  | nil => exact ⟨by simp [Process.answer], failsWith_ok s, fun s' h => by cases h; exact hs⟩
  | cons x splits ih =>
    obtain ⟨hhead, hrest⟩ := List.forall_mem_cons.mp hx
    rw [Process.answer]
    rcases hstep : p.step s x with e | ⟨s', out⟩
    · exact ⟨by simp, fun e' he' => by cases he'; exact hp.safe s x hs hhead e hstep,
        fun _ h => by cases h⟩
    · obtain ⟨hs', hout⟩ := hp.step s x s' out hs hhead hstep
      obtain ⟨hall, hsafe, hend⟩ := ih hs' hrest
      exact ⟨fun t ht => (List.mem_append.mp ht).elim (hout t) (hall t), hsafe, hend⟩

theorem Conforms.run (hp : p.Conforms input output inv) {f : Feed} (hf : f.Conforms input)
    (hs : f.schema = .ok input) : (p.run f).Conforms output := by
  obtain ⟨hout, hsafe, hend⟩ := hp.answer hp.start (hf.splits input hs)
  rw [Process.run]
  rcases ha : p.answer p.start f.splits with ⟨out, e | s⟩
  · rw [ha] at hout hsafe
    refine ⟨fun s hs => ?_, hout, fun e' he' => ?_⟩
    · cases hs
      exact hp.schema_eq
    · cases he'
      exact hsafe e rfl
  · rw [ha] at hout hend
    rcases hfault : f.fault with _ | e
    · refine ⟨fun s hs => ?_, fun t ht => ?_, failsWith_ok _⟩
      · cases hs
        exact hp.schema_eq
      · exact (List.mem_append.mp ht).elim (hout t) (hp.finish s (hend s rfl) t)
    · refine ⟨fun s hs => ?_, hout, fun e' he' => ?_⟩
      · cases hs
        exact hp.schema_eq
      · cases he'
        exact hf.fault input hs e hfault

theorem conforms_failed {e : OperatorError} (h : ¬ e.OfSchema) : (Emission.failed e).Conforms output :=
  ⟨nofun, by simp [Emission.failed], fun e' he' => by cases he'; exact h⟩

/-- A process over conforming inputs writes what conforms to its schema. -/
theorem runOn_conforms {process : Schema → Except OperatorError (Process σ)}
    (hp : ∃ p, process input = .ok p ∧ p.Conforms input output inv) (arrival : List Nat)
    {feeds : List Feed} (hf : ∀ f ∈ feeds, f.Conforms input) :
    (runOn process (Feed.gather arrival feeds)).Conforms output := by
  obtain ⟨p, hprocess, hp⟩ := hp
  obtain ⟨hsafe, hgathered⟩ := Feed.gather_conforms arrival hf
  rcases runOn_cases process (Feed.gather arrival feeds) with
    ⟨f, schema, p', hgather, hs, hp', hrun⟩ | ⟨e, hrun, hgather | ⟨f, hgather, hs | ⟨schema, hs, hp'⟩⟩⟩
  · have hconforms := hgathered f hgather
    obtain rfl := hconforms.schema_eq schema hs
    obtain rfl : p = p' := Except.ok.inj (hprocess.symm.trans hp')
    rw [hrun]
    exact hp.run hconforms hs
  · rw [hrun]
    exact conforms_failed (hsafe e hgather)
  · rw [hrun]
    exact conforms_failed ((hgathered f hgather).refused e hs)
  · obtain rfl := (hgathered f hgather).schema_eq schema hs
    cases hprocess.symm.trans hp'

end Process

section Rowwise

variable {input output : Schema}

theorem checkAll_ok {s : Schema} {es : List Expr} (h : Stage.checkAll s es = .ok ()) :
    ∀ e ∈ es, ∃ t, e.typeOf s = .ok t := by
  induction es with
  | nil => simp
  | cons e es ih =>
    obtain ⟨_, he, h⟩ := bind_ok (show _ >>= _ = Except.ok () from h)
    obtain ⟨t, ht, _⟩ := map_ok he
    exact List.forall_mem_cons.mpr ⟨⟨t, mapError_ok ht⟩, ih h⟩

theorem keepsAll_safe {s : Schema} {es : List Expr} (h : ∀ e ∈ es, ∃ t, e.typeOf s = .ok t)
    (row : List Value) : SchemaSafe (keepsAll s row es) := by
  induction es with
  | nil => exact failsWith_ok _
  | cons e es ih =>
    obtain ⟨⟨t, ht⟩, hrest⟩ := List.forall_mem_cons.mp h
    refine (schemaSafe_ofExpr (Expr.failsWith_keeps ht row)).bind fun keep _ => ?_
    cases keep with
    | true => exact ih hrest
    | false => exact failsWith_ok _

theorem keptRows_safe {s : Schema} {es : List Expr} (h : ∀ e ∈ es, ∃ t, e.typeOf s = .ok t)
    (rows : List Row) : SchemaSafe (keptRows s es rows) := by
  induction rows with
  | nil => exact failsWith_ok _
  | cons r rows ih =>
    exact (keepsAll_safe h r.values).bind fun keep _ => ih.bind fun rest _ => failsWith_ok _

theorem mem_keptRows {s : Schema} {es : List Expr} {rows out : List Row}
    (h : keptRows s es rows = .ok out) : ∀ r ∈ out, ∃ old ∈ rows, r = old.settled s.keys.length := by
  induction rows generalizing out with
  | nil =>
    cases h
    simp
  | cons r rows ih =>
    obtain ⟨keep, _, h⟩ := bind_ok h
    obtain ⟨rest, hrest, h⟩ := bind_ok h
    have hold : ∀ t ∈ rest, ∃ old ∈ r :: rows, t = old.settled s.keys.length := fun t ht => by
      obtain ⟨old, hmem, hsettled⟩ := ih hrest t ht
      exact ⟨old, List.mem_cons_of_mem r hmem, hsettled⟩
    cases keep with
    | true =>
      cases h
      exact List.forall_mem_cons.mpr ⟨⟨r, List.mem_cons_self, rfl⟩, hold⟩
    | false =>
      cases h
      exact hold

theorem filter_conforms {s : Split} {es : List Expr} (hs : s.Conforms input)
    (h : ∀ e ∈ es, ∃ t, e.typeOf input = .ok t) :
    SchemaSafe (s.filter es) ∧ ∀ kept, s.filter es = .ok kept → kept.Conforms input := by
  obtain ⟨rfl, hrows⟩ := hs
  refine ⟨(keptRows_safe h s.rows).bind fun _ _ => failsWith_ok _, fun kept hkept => ?_⟩
  obtain ⟨rows, hkeptRows, hkept⟩ := bind_ok hkept
  cases hkept
  refine ⟨rfl, fun r hr => ?_⟩
  obtain ⟨old, hold, rfl⟩ := mem_keptRows hkeptRows r hr
  exact (hrows old hold).settled

theorem filterProcess_conforms {predicate : Expr}
    (h : (Stage.filter predicate).schemaOver input = .ok output) :
    ∃ p, filterProcess predicate input = .ok p ∧ p.Conforms input output fun _ => True := by
  obtain ⟨_, hcheck, h⟩ := bind_ok h
  cases h
  have hall := checkAll_ok hcheck
  obtain ⟨t, ht⟩ := hall predicate List.mem_cons_self
  have hprocess : filterProcess predicate input = .ok {
      schema := input
      start := ()
      step := fun _ s => do return ((), unlessEmpty (← s.filter [predicate])) } := by
    rw [filterProcess, ht]
    rfl
  refine ⟨_, hprocess, rfl, trivial, fun _ x _ hx => ?_, fun _ x _ out _ hx hstep => ?_, fun _ _ => ?_⟩
  · exact (filter_conforms hx hall).1.bind fun _ _ => failsWith_ok _
  · obtain ⟨kept, hkept, hstep⟩ := bind_ok hstep
    cases hstep
    refine ⟨trivial, fun t ht => ?_⟩
    rw [Router.mem_unlessEmpty ht]
    exact (filter_conforms hx hall).2 kept hkept
  · simp

theorem projectProcess_conforms {exprs : List NamedExpr}
    (h : (Stage.project exprs).schemaOver input = .ok output) :
    ∃ p, projectProcess exprs input = .ok p ∧ p.Conforms input output fun _ => True := by
  obtain ⟨columns, hall, rfl⟩ := projects_ok h
  have hprocess : projectProcess exprs input = .ok {
      schema := { columns }
      start := ()
      step := fun _ s => do
        return ((), [{ schema := { columns }, rows := ← s.rows.mapM (projectRow input exprs) }]) } := by
    have hfields : (exprs.mapM fun e => do
        return { name := e.name, type := ← (e.expr.typeOf input).mapError OperatorError.ofSchema }) =
          Except.ok columns := by
      refine mapM_eq_ok (hall.imp fun e f hf => ?_)
      obtain ⟨hname, ht⟩ := hf
      rw [ht, ← hname]
      rfl
    rw [projectProcess, hfields]
    rfl
  refine ⟨_, hprocess, rfl, trivial, fun _ x _ hx => ?_, fun _ x _ out _ hx hstep => ?_, fun _ _ => ?_⟩
  · refine FailsWith.bind (failsWith_mapM fun r _ => ?_) fun _ _ => failsWith_ok _
    refine FailsWith.bind (failsWith_mapM fun e he => ?_) fun _ _ => failsWith_ok _
    obtain ⟨f, _, hf⟩ := exists_of_forall₂ hall.flip he
    exact schemaSafe_ofExpr (Expr.failsWith_eval hf.type r.values)
  · obtain ⟨rows, hrows, hstep⟩ := bind_ok hstep
    cases hstep
    refine ⟨trivial, fun t ht => ?_⟩
    rw [List.mem_singleton.mp ht]
    refine ⟨rfl, fun r hr => ?_⟩
    obtain ⟨old, hold, hproject⟩ := exists_of_forall₂ (mapM_ok hrows) hr
    have htyped : r.Typed columns := @projectRow_typed input exprs columns old.withoutKeys r
      (hall.imp fun _ _ hf => hf.type) (hx.rows old hold).withoutKeys hproject
    exact Row.Typed.conforms { columns } htyped rfl
  · simp

theorem limitProcess_conforms (count : Nat) :
    ∃ p, limitProcess count input = .ok p ∧ p.Conforms input input fun _ => True := by
  refine ⟨_, rfl, rfl, trivial, fun _ _ _ _ => failsWith_ok _, fun wanted x _ out _ hx hstep => ?_,
    fun _ _ => ?_⟩
  · cases hstep
    refine ⟨trivial, fun t ht => ?_⟩
    split at ht
    · cases ht
    · rw [Router.mem_unlessEmpty ht]
      exact hx.mono fun r hr => List.mem_of_mem_take hr
  · simp

theorem unionProcess_conforms :
    ∃ p, unionProcess input = .ok p ∧ p.Conforms input input fun _ => True := by
  refine ⟨_, rfl, rfl, trivial, fun _ _ _ _ => failsWith_ok _, fun _ x _ out _ hx hstep => ?_,
    fun _ _ => ?_⟩
  · cases hstep
    exact ⟨trivial, by simpa using hx⟩
  · simp

end Rowwise

end QueryCluster
