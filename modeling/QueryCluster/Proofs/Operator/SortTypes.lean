import QueryCluster.Proofs.Operator.Conformity
import QueryCluster.Proofs.Operator.LocalSort
import QueryCluster.Proofs.Operator.Merge

/-!
# Sorted streams conform to their schemas

A local sort adds a key field for each sort item to the schema and a key for each to its rows; a merge takes
both away again. In between and behind, the values stay those of the rows that came in.
-/
namespace QueryCluster

section LocalSort

variable {input output : Schema} {items : List SortItem}

theorem keySchema_of_typed (h : ∀ i ∈ items, ∃ t, i.expr.typeOf input = .ok t) :
    ∃ output, keySchema input items = .ok output := by
  have hfold : ∀ s : Schema, ∃ output, items.foldlM
      (fun (s : Schema) (i : SortItem) => (i.expr.typeOf input).map s.addKey) s = .ok output := by
    induction items with
    | nil => exact fun s => ⟨s, rfl⟩
    | cons i items ih =>
      intro s
      obtain ⟨⟨t, ht⟩, hrest⟩ := List.forall_mem_cons.mp h
      rw [List.foldlM_cons, ht]
      exact ih hrest (s.addKey t)
  obtain ⟨output, houtput⟩ := hfold input.withoutKeys
  exact ⟨output, by rw [keySchema, houtput]; rfl⟩

theorem fitting_of_length {columns : Nat} {r : Row} (h : r.values.length = columns) :
    fitting columns r = .ok r := by rw [fitting, if_pos h]

/-- Rows are keyed without fault, and get the keys that the schema names. -/
theorem keyFitting_conforms (h : ∀ i ∈ items, ∃ t, i.expr.typeOf input = .ok t)
    (ho : keySchema input items = .ok output) {r : Row} (hr : r.Conforms input) :
    SchemaSafe (keyFitting input items output.columns.length r) ∧
      ∀ k, keyFitting input items output.columns.length r = .ok k → k.Conforms output := by
  obtain ⟨hcolumns, hkeys⟩ := keySchema_ok ho
  constructor
  · refine FailsWith.bind (FailsWith.bind (failsWith_mapM fun i hi => ?_) fun _ _ => failsWith_ok _)
      fun k hk => ?_
    · obtain ⟨t, ht⟩ := h i hi
      exact schemaSafe_ofExpr (Expr.failsWith_eval ht r.values)
    · rw [fitting_of_length (by rw [keyRow_values hk, hr.fits.1, hcolumns])]
      exact failsWith_ok k
  · intro k hk
    obtain ⟨hkeyed, hlength⟩ := keyFitting_ok hk
    obtain ⟨keys, hall, rfl⟩ := keyRow_ok hkeyed
    have hcount : keys.length = output.keys.length := (mapM_ok hall).length_eq.symm.trans hkeys.symm
    refine ⟨⟨hlength, by simp [Row.withKeys, hcount], by simp [Row.withKeys, hcount]⟩, ?_⟩
    rw [hcolumns]
    exact hr.values

theorem localSortProcess_conforms (limit : Option Nat)
    (h : ∀ i ∈ items, ∃ t, i.expr.typeOf input = .ok t) (ho : keySchema input items = .ok output) :
    ∃ p, localSortProcess items limit input = .ok p ∧
      p.Conforms input output (Split.Conforms output) := by
  have hsafe : ∀ x : Split, x.Conforms input →
      SchemaSafe (x.rows.mapM (keyFitting x.schema items output.columns.length)) := by
    rintro x ⟨rfl, hrows⟩
    exact failsWith_mapM fun r hr => (keyFitting_conforms h ho (hrows r hr)).1
  obtain ⟨p, hp⟩ : ∃ p, localSortProcess items limit input = .ok p := by
    rw [localSortProcess, ho]
    exact ⟨_, rfl⟩
  obtain ⟨output', ho', hschema, hstart, hfinish, hstep⟩ := localSortProcess_ok hp
  obtain rfl : output' = output := Except.ok.inj (ho'.symm.trans ho)
  refine ⟨p, hp, hschema, ?_, fun buffer x _ hx => ?_, fun buffer x buffer' out hbuffer hx hs => ?_,
    fun buffer hbuffer t ht => ?_⟩
  · rw [hstart]
    exact ⟨rfl, by simp⟩
  · -- with a limit the buffer may run full, which is no fault of the schema
    have hrest := (hsafe x hx).bind (f := fun rows =>
      (pure ({ buffer with rows := buffer.rows ++ rows }, []) : Except OperatorError (Split × List Split)))
      fun _ _ => failsWith_ok _
    rw [localSortProcess, ho] at hp
    cases hp
    cases limit with
    | none => exact hrest
    | some n =>
      show SchemaSafe (if n < buffer.rowCount + x.rowCount then _ else _)
      split
      · exact fun e he => by cases he; exact id
      · exact hrest
  · obtain ⟨rfl, rows, hrows, rfl⟩ := hstep buffer x buffer' out hs
    obtain ⟨rfl, hx⟩ := hx
    refine ⟨⟨hbuffer.schema_eq, fun r hr => ?_⟩, by simp⟩
    rcases List.mem_append.mp hr with hr | hr
    · exact hbuffer.rows r hr
    · obtain ⟨old, hold, hkeyed⟩ := exists_of_forall₂ (mapM_ok hrows) hr
      exact (keyFitting_conforms h ho (hx old hold)).2 r hkeyed
  · rw [hfinish] at ht
    rw [(written_sort buffer).2 t ht]
    exact ⟨(sort_schema buffer).trans hbuffer.schema_eq,
      fun r hr => hbuffer.rows r ((sort_perm buffer).mem_iff.mp hr)⟩

end LocalSort

section Merge

variable {schema : Schema} {items : List SortItem}

/-- What is left of an input that conforms to a schema. -/
structure Cursor.Conforms (schema : Schema) (c : Cursor) : Prop where
  rows : ∀ r ∈ c.rest, r.Conforms schema
  fault : ∀ e ∈ c.fault, ¬ e.OfSchema

theorem Cursor.next_error {c : Cursor} {e : OperatorError} (h : c.next = .error e) : c.fault = some e := by
  have hfrom : ∀ (fault : Option OperatorError) (splits : List Split),
      nextFrom fault splits = .error e → fault = some e := by
    intro fault splits h
    induction splits with
    | nil =>
      cases fault with
      | none => cases h
      | some e' => exact congrArg some (Except.error.inj h)
    | cons s splits ih =>
      rw [nextFrom] at h
      split at h
      · cases h
      · exact ih h
  rw [next] at h
  split at h
  · cases h
  · exact hfrom _ _ h

theorem Cursor.Conforms.next {c : Cursor} (hc : c.Conforms schema) :
    SchemaSafe c.next ∧ ∀ head d, c.next = .ok (head, d) →
      (∀ r ∈ head, r.Conforms schema) ∧ d.Conforms schema := by
  refine ⟨fun e he => hc.fault e (Cursor.next_error he), fun head d h => ?_⟩
  obtain ⟨hrest, hfault, _⟩ := Cursor.next_ok h
  refine ⟨fun r hr => hc.rows r ?_, fun r hr => hc.rows r ?_, fun e he => hc.fault e (hfault ▸ he)⟩
  · rw [hrest]
    exact List.mem_append_left _ (Option.mem_toList.mpr hr)
  · rw [hrest]
    exact List.mem_append_right _ hr

theorem firstRows_conforms {cursors : List Cursor} (hc : ∀ c ∈ cursors, c.Conforms schema) :
    SchemaSafe (firstRows cursors) ∧ ∀ heads rest, firstRows cursors = .ok (heads, rest) →
      (∀ head ∈ heads, ∀ r ∈ head, r.Conforms schema) ∧ ∀ c ∈ rest, c.Conforms schema := by
  induction cursors with
  | nil => exact ⟨failsWith_ok _, fun heads rest h => by cases h; simp⟩
  | cons c cursors ih =>
    obtain ⟨hhead, hrest⟩ := List.forall_mem_cons.mp hc
    obtain ⟨hsafe, hfirst⟩ := hhead.next
    obtain ⟨hsafe', hfirst'⟩ := ih hrest
    refine ⟨hsafe.bind fun _ _ => hsafe'.bind fun _ _ => failsWith_ok _, fun heads rest h => ?_⟩
    obtain ⟨⟨r, d⟩, hn, h⟩ := bind_ok h
    obtain ⟨⟨rs, ds⟩, hns, h⟩ := bind_ok h
    cases h
    obtain ⟨hr, hd⟩ := hfirst r d hn
    obtain ⟨hrs, hds⟩ := hfirst' rs ds hns
    exact ⟨List.forall_mem_cons.mpr ⟨hr, hrs⟩, List.forall_mem_cons.mpr ⟨hd, hds⟩⟩

/-- Merged rows have the values of the rows that came in. -/
theorem mergeRows_conforms {columns fuel : Nat} (hcolumns : columns = schema.columns.length)
    {heads : Heads} {cursors : List Cursor} (hh : ∀ head ∈ heads.slots, ∀ r ∈ head, r.Conforms schema)
    (hc : ∀ c ∈ cursors, c.Conforms schema) :
    (∀ r ∈ (mergeRows columns fuel heads cursors).1, r.Typed schema.columns) ∧
      ∀ e ∈ (mergeRows columns fuel heads cursors).2, ¬ e.OfSchema := by
  induction fuel generalizing heads cursors with
  | zero => simp [mergeRows]
  | succ fuel ih =>
    rw [mergeRows]
    -- the row that comes out is a head, and the next one of its cursor takes its place
    rcases hl : heads.least? with _ | ⟨i, r⟩
    · simp
    simp only
    rcases hi : cursors[i]? with _ | c
    · simp
    have hr := hh _ (List.mem_of_getElem? (Heads.least?_mem hl)) r rfl
    obtain ⟨hsafe, hnext⟩ := (hc c (List.mem_of_getElem? hi)).next
    simp only
    rcases hn : c.next with e | ⟨head, d⟩
    · exact ⟨by simp [bind, Except.bind], fun e' he' => by cases he'; exact hsafe e hn⟩
    have hfit : fitting columns r.withoutKeys = .ok r.withoutKeys :=
      fitting_of_length (hr.fits.1.trans hcolumns.symm)
    obtain ⟨hhead, hd⟩ := hnext head d hn
    obtain ⟨hrows, hfault⟩ := @ih (heads.set i head) (cursors.set i d)
      (fun s hs => (List.mem_or_eq_of_mem_set hs).elim (hh s) fun h => h ▸ hhead)
      (fun x hx => (List.mem_or_eq_of_mem_set hx).elim (hc x) fun h => h ▸ hd)
    simp only [bind, Except.bind, hfit, pure, Except.pure]
    exact ⟨List.forall_mem_cons.mpr ⟨hr.withoutKeys, hrows⟩, hfault⟩

theorem mergeSchema_conforms {first : Option Schema} {feeds : List Feed}
    (hkeys : schema.keys.length = items.length) (hfirst : ∀ s ∈ first, s = schema)
    (hf : ∀ f ∈ feeds, f.Conforms schema) : SchemaSafe (mergeSchema items first feeds) := by
  induction feeds generalizing first with
  | nil => exact failsWith_ok _
  | cons f feeds ih =>
    obtain ⟨hhead, hrest⟩ := List.forall_mem_cons.mp hf
    rw [mergeSchema]
    refine hhead.refused.bind fun s hs => ?_
    obtain rfl := hhead.schema_eq s hs
    rw [if_neg (not_not.mpr hkeys)]
    cases first with
    | none => exact ih (by simp) hrest
    | some t =>
      obtain rfl : t = s := hfirst t rfl
      have hnext := ih hfirst hrest
      simp only [if_true]
      exact hnext

theorem Feed.Conforms.cursor {f : Feed} (h : f.Conforms schema) (hs : f.schema = .ok schema) :
    (Cursor.ofFeed f).Conforms schema := by
  refine ⟨fun r hr => ?_, h.fault schema hs⟩
  obtain ⟨x, hx, hr⟩ := List.mem_flatMap.mp (show r ∈ rowsOf f.splits from hr)
  exact (h.splits schema hs x hx).rows r hr

theorem mergeInto_conforms (batchRows : Nat) {inputs : List Feed}
    (hf : ∀ f ∈ inputs, f.Conforms schema ∧ f.schema = .ok schema) :
    (mergeInto items batchRows schema.withoutKeys inputs).Conforms schema.withoutKeys := by
  have hcursors : ∀ c ∈ inputs.map Cursor.ofFeed, c.Conforms schema :=
    List.forall_mem_map.mpr fun f hmem => (hf f hmem).1.cursor (hf f hmem).2
  obtain ⟨hfirst, hrows⟩ := firstRows_conforms hcursors
  have hschema : ∀ t, some schema.withoutKeys = some t → t = schema.withoutKeys :=
    fun t ht => (Option.some.inj ht).symm
  rcases hheads : firstRows (inputs.map Cursor.ofFeed) with e | ⟨heads, cursors⟩
  · simp only [mergeInto, hheads]
    exact ⟨hschema, by simp, fun e' he' => by cases he'; exact hfirst e hheads⟩
  obtain ⟨hh, hc⟩ := hrows heads cursors hheads
  have hcolumns : schema.withoutKeys.columns.length = schema.columns.length := rfl
  obtain ⟨htyped, hfault⟩ := @mergeRows_conforms schema _ (countRows (inputs.flatMap (·.splits)))
    hcolumns ⟨heads, directionsOf items⟩ cursors hh hc
  rcases hm : mergeRows schema.withoutKeys.columns.length (countRows (inputs.flatMap (·.splits)))
    ⟨heads, directionsOf items⟩ cursors with ⟨rows, fault⟩
  rw [hm] at htyped hfault
  have hbatches : ∀ b ∈ StreamWriter.batches { schema := schema.withoutKeys, rows } (max batchRows 1),
      b.Conforms schema.withoutKeys := by
    refine conforms_batches ⟨rfl, fun r hr => ?_⟩ (by omega)
    exact Row.Typed.conforms schema.withoutKeys (htyped r hr) rfl
  rcases fault with _ | e
  · simp only [mergeInto, hheads, hm]
    exact ⟨hschema, hbatches, failsWith_ok _⟩
  · simp only [mergeInto, hheads, hm]
    refine ⟨hschema, fun b hb => hbatches b (List.mem_of_mem_filter hb), fun e' he' => ?_⟩
    cases he'
    exact hfault e rfl

theorem runMerge_conforms (hkeys : schema.keys.length = items.length) (batchRows : Nat)
    {inputs : List Feed} (hf : ∀ f ∈ inputs, f.Conforms schema) :
    (runMerge items batchRows inputs).Conforms schema.withoutKeys := by
  have hsafe := @mergeSchema_conforms schema items none inputs hkeys (by simp) hf
  rw [runMerge]
  rcases hs : mergeSchema items none inputs with e | _ | s
  · exact Process.conforms_failed (hsafe e hs)
  · exact Process.conforms_failed id
  have hopen := (mergeSchema_ok hs).2
  rcases inputs with _ | ⟨f₀, inputs⟩
  · cases hs
  obtain rfl := (hf f₀ List.mem_cons_self).schema_eq s (hopen f₀ List.mem_cons_self).1
  exact mergeInto_conforms batchRows fun f hmem => ⟨hf f hmem, (hopen f hmem).1⟩

end Merge

end QueryCluster
