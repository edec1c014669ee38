import Mathlib.Data.List.Perm.Basic

/-!
# Steps that went well

What a computation that succeeds says about its steps, and what faults one can meet that does not. What a
lookup finds where it finds something.
-/
namespace QueryCluster

variable {ε α β : Type}

theorem ok_bind (a : α) (f : α → Except ε β) : (Except.ok a >>= f) = f a := rfl

theorem isOk_iff {x : Except ε α} : x.isOk = true ↔ ∃ a, x = .ok a := by
  cases x with
  | error e => exact ⟨nofun, nofun⟩
  | ok a => exact ⟨fun _ => ⟨a, rfl⟩, fun _ => rfl⟩

theorem bind_ok {x : Except ε α} {f : α → Except ε β} {b : β} (h : x >>= f = .ok b) :
    ∃ a, x = .ok a ∧ f a = .ok b := by
  cases x with
  | error e => cases h
  | ok a => exact ⟨a, rfl, h⟩

theorem map_ok {x : Except ε α} {f : α → β} {b : β} (h : x.map f = .ok b) :
    ∃ a, x = .ok a ∧ f a = b := by
  cases x with
  | error e => cases h
  | ok a => exact ⟨a, rfl, Except.ok.inj h⟩

theorem ok_of_isSome_toOption {x : Except ε α} (h : x.toOption.isSome) : ∃ a, x = .ok a := by
  cases x with
  | error e => cases h
  | ok a => exact ⟨a, rfl⟩

theorem mapError_ok {δ : Type} {x : Except ε α} {f : ε → δ} {a : α} (h : x.mapError f = .ok a) :
    x = .ok a := by
  cases x with
  | error e => cases h
  | ok b => exact congrArg Except.ok (Except.ok.inj h)

theorem mapM_ok {f : α → Except ε β} {as : List α} {bs : List β} (h : as.mapM f = .ok bs) :
    List.Forall₂ (fun a b => f a = .ok b) as bs := by
  induction as generalizing bs with
  | nil =>
    cases h
    exact .nil
  | cons a as ih =>
    rw [List.mapM_cons] at h
    obtain ⟨b, hb, h⟩ := bind_ok h
    obtain ⟨rest, hrest, h⟩ := bind_ok h
    cases h
    exact .cons hb (ih hrest)

theorem exists_of_forall₂ {R : α → β → Prop} {as : List α} {bs : List β} (h : List.Forall₂ R as bs)
    {b : β} (hb : b ∈ bs) : ∃ a ∈ as, R a b := by
  induction h with
  | nil => cases hb
  | cons hr _ ih =>
    rcases List.mem_cons.mp hb with rfl | hb
    · exact ⟨_, List.mem_cons_self, hr⟩
    · obtain ⟨a, ha, hr⟩ := ih hb
      exact ⟨a, List.mem_cons_of_mem _ ha, hr⟩

theorem mapM_eq_ok {f : α → Except ε β} {as : List α} {bs : List β}
    (h : List.Forall₂ (fun a b => f a = .ok b) as bs) : as.mapM f = .ok bs := by
  induction h with
  | nil => rfl
  | cons hb _ ih => rw [List.mapM_cons, hb, ih]; rfl

theorem exists_mapM_ok {f : α → Except ε β} {as : List α} (h : ∀ a ∈ as, ∃ b, f a = .ok b) :
    ∃ bs, as.mapM f = .ok bs := by
  induction as with
  | nil => exact ⟨[], rfl⟩
  | cons a as ih =>
    obtain ⟨⟨b, hb⟩, hrest⟩ := List.forall_mem_cons.mp h
    obtain ⟨bs, hbs⟩ := ih hrest
    exact ⟨b :: bs, by rw [List.mapM_cons, hb, hbs]; rfl⟩

theorem mapM_append_ok {f : α → Except ε β} {as bs : List α} {xs ys : List β}
    (ha : as.mapM f = .ok xs) (hb : bs.mapM f = .ok ys) : (as ++ bs).mapM f = .ok (xs ++ ys) :=
  mapM_eq_ok (List.rel_append (mapM_ok ha) (mapM_ok hb))

theorem mapM_perm_ok {f : α → Except ε β} {as bs : List α} {xs : List β} (h : as.Perm bs)
    (ha : as.mapM f = .ok xs) : ∃ ys, bs.mapM f = .ok ys ∧ xs.Perm ys := by
  obtain ⟨ys, hys, hperm⟩ := List.perm_comp_forall₂ h.symm (mapM_ok ha)
  exact ⟨ys, mapM_eq_ok hys, hperm.symm⟩

theorem mapM_flatMap_ok {ι : Type} {f : α → Except ε β} {is : List ι} {xs : ι → List α}
    {ys : ι → List β} (h : ∀ i ∈ is, (xs i).mapM f = .ok (ys i)) :
    (is.flatMap xs).mapM f = .ok (is.flatMap ys) := by
  induction is with
  | nil => rfl
  | cons i is ih =>
    rw [List.flatMap_cons, List.flatMap_cons]
    exact mapM_append_ok (h i List.mem_cons_self) (ih fun j hj => h j (List.mem_cons_of_mem i hj))

/-- Under names that differ there is one entry to find. -/
theorem lookup_eq_some_iff_mem [BEq α] [LawfulBEq α] {entries : List (α × β)}
    (honce : (entries.map Prod.fst).Nodup) {key : α} {value : β} :
    entries.lookup key = some value ↔ (key, value) ∈ entries := by
  constructor
  · intro h
    obtain ⟨front, back, hsplit, _⟩ := List.lookup_eq_some_iff.mp h
    simp [hsplit]
  · intro h
    obtain ⟨front, back, rfl⟩ := List.append_of_mem h
    apply List.lookup_eq_some_iff.mpr
    refine ⟨front, back, rfl, ?_⟩
    intro entry hentry
    rw [List.map_append, List.nodup_append] at honce
    have hother := honce.2.2 entry.1 (List.mem_map_of_mem hentry) key (by simp)
    simpa using Ne.symm hother

theorem of_getElem?_map_range {f : Nat → β} {n i : Nat} {b : β}
    (h : ((List.range n).map f)[i]? = some b) : i < n ∧ f i = b := by
  rw [List.getElem?_map, Option.map_eq_some_iff] at h
  obtain ⟨k, hk, rfl⟩ := h
  obtain ⟨hi, rfl⟩ := List.getElem?_eq_some_iff.mp hk
  rw [List.length_range] at hi
  exact ⟨hi, by rw [List.getElem_range]⟩

theorem map_some_filterMap {f : α → Option β} {as : List α}
    (hall : ∀ a ∈ as, (f a).isSome) : (as.filterMap f).map some = as.map f := by
  induction as with
  | nil => rfl
  | cons a as ih =>
    obtain ⟨hhead, hrest⟩ := List.forall_mem_cons.mp hall
    obtain ⟨b, hb⟩ := Option.isSome_iff_exists.mp hhead
    simp [hb, ih hrest]

/-- A computation that fails, if at all, with a fault of some kind. -/
def FailsWith (P : ε → Prop) (x : Except ε α) : Prop := ∀ e, x = .error e → P e

variable {P : ε → Prop}

theorem failsWith_ok (a : α) : FailsWith P (.ok a) := nofun

theorem FailsWith.bind {x : Except ε α} {f : α → Except ε β} (hx : FailsWith P x)
    (hf : ∀ a, x = .ok a → FailsWith P (f a)) : FailsWith P (x >>= f) := by
  cases x with
  | error e => exact fun e' h => hx e' (by cases h; rfl)
  | ok a => exact hf a rfl

theorem FailsWith.map {x : Except ε α} (hx : FailsWith P x) (f : α → β) : FailsWith P (x.map f) := by
  cases x with
  | error e => exact fun e' h => hx e' (by cases h; rfl)
  | ok a => exact failsWith_ok _

theorem FailsWith.mapError {δ : Type} {Q : δ → Prop} {f : ε → δ} {x : Except ε α}
    (hx : FailsWith (fun e => Q (f e)) x) : FailsWith Q (x.mapError f) := by
  cases x with
  | error e =>
    intro e' h
    cases h
    exact hx e rfl
  | ok a => exact failsWith_ok _

theorem failsWith_mapM {f : α → Except ε β} {as : List α} (h : ∀ a ∈ as, FailsWith P (f a)) :
    FailsWith P (as.mapM f) := by
  induction as with
  | nil => exact failsWith_ok _
  | cons a as ih =>
    rw [List.mapM_cons]
    refine (h a List.mem_cons_self).bind fun b _ => ?_
    exact (ih fun a' ha' => h a' (List.mem_cons_of_mem a ha')).bind fun bs _ => failsWith_ok _

end QueryCluster
