import QueryCluster.Split.Basic

/-!
# The heads of a merge

One slot for each input of a merge, holding the row that input offers next or nothing.
-/
namespace QueryCluster

structure Heads where
  slots : List (Option Row)
  orders : List Direction
  deriving DecidableEq, Repr

namespace Heads

def empty (slots : Nat) (orders : List Direction) : Heads := ⟨List.replicate slots none, orders⟩

def at? (h : Heads) (i : Nat) : Option Row := h.slots[i]?.join

/-- Row `i` sorts strictly before row `j`. An empty slot sorts after every row. -/
def less (h : Heads) (i j : Nat) : Bool :=
  match h.at? i, h.at? j with
  | some a, some b => compareKeys h.orders a b == .lt
  | some _, none => true
  | none, _ => false

def minFrom (orders : List Direction) : Nat → Option (Nat × Row) → List (Option Row) → Option (Nat × Row)
  | _, best, [] => best
  | i, best, none :: rest => minFrom orders (i + 1) best rest
  | i, none, some r :: rest => minFrom orders (i + 1) (some (i, r)) rest
  | i, some (b, s), some r :: rest =>
    minFrom orders (i + 1) (if compareKeys orders r s = .lt then some (i, r) else some (b, s)) rest

/-- The lowest slot whose row no other row sorts before. -/
def least? (h : Heads) : Option (Nat × Row) := minFrom h.orders 0 none h.slots

def min? (h : Heads) : Option Nat := h.least?.map Prod.fst

def set (h : Heads) (i : Nat) (r : Option Row) : Heads := { h with slots := h.slots.set i r }

def push (h : Heads) (r : Option Row) : Heads := { h with slots := h.slots ++ [r] }

end Heads
end QueryCluster
