import PositionCache.Entry

/-!
# Clusters

All positions whose keys fall into one interval share a cluster of three slots. A lookup reads at
most these three. A position that is in none of them goes to the slot that is worth least.
-/

namespace PositionCache

abbrev Slot := Fin 3

structure Cluster where
  first : Entry
  second : Entry
  third : Entry
deriving DecidableEq

namespace Cluster

def size : Nat := 3

def empty : Cluster := ⟨.empty, .empty, .empty⟩

instance : Inhabited Cluster := ⟨empty⟩

def get (c : Cluster) (s : Slot) : Entry :=
  match s with
  | 0 => c.first
  | 1 => c.second
  | 2 => c.third

def set (c : Cluster) (s : Slot) (e : Entry) : Cluster :=
  match s with
  | 0 => { c with first := e }
  | 1 => { c with second := e }
  | 2 => { c with third := e }

def toList (c : Cluster) : List Entry := [c.first, c.second, c.third]

theorem get_set_self (c : Cluster) (s : Slot) (e : Entry) : (c.set s e).get s = e := by
  match s with
  | 0 | 1 | 2 => rfl

theorem get_set_of_ne (c : Cluster) {s t : Slot} (e : Entry) (h : s ≠ t) :
    (c.set s e).get t = c.get t := by
  match s, t with
  | 0, 0 | 1, 1 | 2, 2 => exact absurd rfl h
  | 0, 1 | 0, 2 | 1, 0 | 1, 2 | 2, 0 | 2, 1 => rfl

/-- The first slot in use whose tag is the key's. -/
def find? (c : Cluster) (tag : UInt16) : Option Slot :=
  if c.first.Holds tag then some 0
  else if c.second.Holds tag then some 1
  else if c.third.Holds tag then some 2
  else none

/-- The first of the slots that are worth least. -/
def leastWorth (c : Cluster) (generation : UInt8) : Slot :=
  let best : Slot := if c.second.worth generation < c.first.worth generation then 1 else 0
  if c.third.worth generation < (c.get best).worth generation then 2 else best

end Cluster

end PositionCache
