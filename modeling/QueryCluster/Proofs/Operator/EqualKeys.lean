import QueryCluster.Proofs.Operator.Grouping
import QueryCluster.Proofs.Value.Order
import QueryCluster.Value.Key

/-!
# Which equal keys stay together

Rows meet in one group of a grouping just when their key bytes agree. So rows whose keys are equal
value by value are grouped together, and sent to one bucket, unless some position of their keys sets
estranged numbers against each other.
-/
namespace QueryCluster

/-- The rows that belong to a group. -/
def Group.members (keyColumns : List Nat) (rows : List Row) (x : Group) : List Row :=
  rows.filter fun r => groupKey keyColumns r = x.key

/-- One of the groups that some rows made has taken in two of them. -/
def Grouping.Together (g : Grouping) (slots : List AggregateSlot) (rows : List Row)
    (groups : List Group) (r t : Row) : Prop :=
  ∃ x ∈ groups, x.Holds g.keyColumns slots (x.members g.keyColumns rows) ∧
    r ∈ x.members g.keyColumns rows ∧ t ∈ x.members g.keyColumns rows

theorem Grouped.together_iff {g : Grouping} {slots : List AggregateSlot} {rows : List Row}
    {groups : List Group} {r t : Row} (h : Grouped g slots rows groups) (hr : r ∈ rows)
    (ht : t ∈ rows) :
    g.Together slots rows groups r t ↔ groupKey g.keyColumns r = groupKey g.keyColumns t := by
  constructor
  · rintro ⟨x, _, _, hrx, htx⟩
    have hrk : groupKey g.keyColumns r = x.key := of_decide_eq_true (List.mem_filter.mp hrx).2
    have htk : groupKey g.keyColumns t = x.key := of_decide_eq_true (List.mem_filter.mp htx).2
    exact hrk.trans htk.symm
  · intro hkey
    obtain ⟨x, hx, hxk⟩ := List.mem_map.mp ((h.keys _).mpr (List.mem_map_of_mem hr))
    exact ⟨x, hx, h.holds x hx, List.mem_filter.mpr ⟨hr, decide_eq_true hxk.symm⟩,
      List.mem_filter.mpr ⟨ht, decide_eq_true (hkey.symm.trans hxk.symm)⟩⟩

/-- Keys that are equal value by value have the same key bytes, and their rows one group, just when no
position estranges them; they then have one bucket of any number. -/
theorem equal_keys_together {vs ws : List Value}
    (h : List.Forall₂ (fun v w => v.natural w = .eq) vs ws) :
    (keyBytes vs = keyBytes ws ↔ List.Forall₂ (fun v w => ¬ Value.Estranged v w) vs ws) ∧
      (List.Forall₂ (fun v w => ¬ Value.Estranged v w) vs ws →
        ∀ n, hashPartition vs n = hashPartition ws n) ∧
      ∀ {schema keys aggregates g slots rows groups r t},
        Grouping.resolve keys aggregates schema = .ok g →
        aggregates.mapM (Aggregate.slot schema) = .ok slots →
        rows.foldlM g.addRow [] = .ok groups → r ∈ rows → t ∈ rows → g.keyOf r = vs → g.keyOf t = ws →
        (g.Together slots rows groups r t ↔ List.Forall₂ (fun v w => ¬ Value.Estranged v w) vs ws) := by
  have hkeys := keyBytes_eq_iff_of_natural h
  refine ⟨hkeys, fun hfree n => congrArg (bucketOf · n) (hkeys.mpr hfree), ?_⟩
  intro schema keys aggregates g slots rows groups r t hg hslots hgroups hr ht hvs hws
  obtain ⟨_, slots', hslots', hover, _⟩ := resolve_ok hg
  obtain rfl : slots' = slots := Except.ok.inj (hslots'.symm.trans hslots)
  have hgrouped : Grouped g slots' rows groups := Grouped.start.addRows hover hgroups
  rw [hgrouped.together_iff hr ht, ← hkeys, ← hvs, ← hws]
  rfl

/-- A number in both widths, in front of one text. -/
theorem equal_keys_together_widths :
    (∀ n, hashPartition [.int32 17, .text "x"] n = hashPartition [.int64 17, .text "x"] n) ∧
      ∃ g groups, Grouping.resolve ["k", "s"] [⟨.count, none, "n"⟩]
          { columns := [⟨"k", .int64⟩, ⟨"s", .utf8⟩] } = .ok g ∧
        g.Together [⟨.count, .int64, none⟩]
          [⟨[.int32 17, .text "x"], [], []⟩, ⟨[.int64 17, .text "x"], [], []⟩] groups
          ⟨[.int32 17, .text "x"], [], []⟩ ⟨[.int64 17, .text "x"], [], []⟩ := by
  have h : List.Forall₂ (fun v w => Value.natural v w = .eq) [.int32 17, .text "x"]
      [.int64 17, .text "x"] := .cons (by decide) (.cons (by decide) .nil)
  have hfree : List.Forall₂ (fun v w => ¬ Value.Estranged v w) [.int32 17, .text "x"]
      [.int64 17, .text "x"] :=
    .cons (fun he => he.not_sameKey (by decide)) (.cons (fun he => he.not_sameKey (by decide)) .nil)
  have hresolve : Grouping.resolve ["k", "s"] [⟨.count, none, "n"⟩]
      { columns := [⟨"k", .int64⟩, ⟨"s", .utf8⟩] } = .ok ⟨[0, 1], [none], [.count 0],
        { columns := [⟨"k", .int64⟩, ⟨"s", .utf8⟩, ⟨"n", .int64⟩] }⟩ := rfl
  have hslots : [⟨.count, none, "n"⟩].mapM (Aggregate.slot { columns := [⟨"k", .int64⟩, ⟨"s", .utf8⟩] }) =
      .ok [⟨.count, .int64, none⟩] := rfl
  obtain ⟨_, hbucket, hgroup⟩ := equal_keys_together h
  exact ⟨hbucket hfree, _, [⟨keyBytes [.int32 17, .text "x"], [.int32 17, .text "x"], [.count 2]⟩], hresolve,
    (hgroup hresolve hslots rfl List.mem_cons_self (List.mem_cons_of_mem _ List.mem_cons_self) rfl
      rfl).mpr hfree⟩

/-- The zeros of either sign are equal, with different key bytes. -/
theorem not_equal_keys_encode :
    ¬ ∀ vs ws, List.Forall₂ (fun v w => Value.natural v w = .eq) vs ws → keyBytes vs = keyBytes ws :=
  fun h => absurd (h [.float64 ⟨0⟩] [.float64 ⟨0x8000000000000000⟩] (.cons (by decide) .nil)) (by decide)

end QueryCluster
