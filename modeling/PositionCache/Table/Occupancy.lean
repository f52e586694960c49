import PositionCache.Table

/-!
# How full a table is

The share of slots that some test accepts, in thousandths and rounded down, is estimated from the
first thousand clusters.
-/

namespace PositionCache.Table

/-- How many clusters an estimate looks at, if there are as many. -/
def sampleLimit : Nat := 1000

def sample (t : Table) : List Entry :=
  (t.clusters.extract 0 (min sampleLimit t.clusterCount)).toList.flatMap Cluster.toList

def perMille (t : Table) (accepts : Entry → Bool) : Except Fault Nat :=
  let slots := min sampleLimit t.clusterCount * Cluster.size
  if slots = 0 then .error .divisionByZero
  else .ok (t.sample.countP accepts * 1000 / slots)

/-- The share of slots written or found in the current search. -/
def hashfull (t : Table) : Except Fault Nat := t.perMille (·.isCurrent t.generation)

/-- The share of slots in use whose age is at most `maxAge`. -/
def hashfullWithAge (t : Table) (maxAge : Nat) : Except Fault Nat :=
  t.perMille fun e => e.isOccupied && e.age t.generation ≤ maxAge

end PositionCache.Table
