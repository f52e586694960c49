import PositionCache.Random.Xoshiro
import PositionCache.Table.Occupancy
import PositionCache.Workload.Percent

/-!
# False hits

A key's position is told from others of its cluster by sixteen bits, so a probe may find an entry
of another position. To measure how often, a table is filled with random keys and then probed with
others. Any hit is false, but for the odd key drawn twice.
-/

namespace PositionCache.Collision

/-- The share of false hits to expect: each occupied slot of a cluster has one tag of 65536. -/
def estimate (occupied : Binary64) (clusterSize : Nat) : Binary64 :=
  occupied * .ofNat clusterSize / .ofNat 65536

section

variable {σ : Type} [RandomSource σ]

/-- What is written for a random key. -/
def filler (depth : Depth) : Record where
  move := .absent
  value := .zero
  eval := .unknown
  depth := depth
  bound := .lower
  isPv := false

/-- Writes so many random keys, each where its probe says. -/
@[specialize]
def fill : Nat → Table → σ → Except Fault (Table × σ)
  | 0, table, s => .ok (table, s)
  | count + 1, table, s =>
    let (key, s) := RandomSource.word s
    match table.probe key with
    | (.error fault, _) => .error fault
    | (.ok p, table) =>
      let (depth, s) := RandomSource.between 1 20 s
      let generation := table.generation
      match table.write p.writer key (filler depth) generation with
      | (.error fault, _) => .error fault
      | (.ok (), table) => fill count table s

/-- Probes so many random keys and counts those that are found, beside a count so far. -/
@[specialize]
def measure : Nat → Nat → Table → σ → Except Fault (Nat × Table × σ)
  | 0, hits, table, s => .ok (hits, table, s)
  | count + 1, hits, table, s =>
    let (key, s) := RandomSource.word s
    match table.probe key with
    | (.error fault, _) => .error fault
    | (.ok p, table) => measure count (if p.found then hits + 1 else hits) table s

end

structure Plan where
  /-- How many keys to write, in hundredths of the slots. -/
  fillPercent : Nat
  probes : Nat
  seed : UInt64
deriving DecidableEq, Inhabited

/-- How many keys a plan writes into a table. -/
def Plan.writes (plan : Plan) (table : Table) : Except Fault Nat := do
  let slots ← checkedProduct table.clusterCount Cluster.size
  let parts ← checkedProduct slots plan.fillPercent
  pure (parts / 100)

structure Report where
  /-- The share of slots in use, in thousandths. -/
  hashfull : Nat
  falseHits : Nat
deriving DecidableEq, Inhabited

end PositionCache.Collision
