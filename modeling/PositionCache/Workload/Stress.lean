import PositionCache.Binary64
import PositionCache.Keys
import PositionCache.Random.Xoshiro
import PositionCache.Table.Occupancy
import PositionCache.Workload.Percent

/-!
# Stress

A stress run makes searches over synthetic positions. Each search begins a generation and sends
workers over the table, one after another. A worker visits one position after another: it
draws a position at random and asks the memory for its cluster, and only four visits later probes
it and writes what it pretends to have found.
-/

namespace PositionCache.Stress

/-! ## Statistics -/

structure Tally where
  nodes : Nat
  hits : Nat
  writes : Nat
deriving DecidableEq, Inhabited

namespace Tally

def zero : Tally := ⟨0, 0, 0⟩

def add (a b : Tally) : Tally := ⟨a.nodes + b.nodes, a.hits + b.hits, a.writes + b.writes⟩

end Tally

/-! ## Pending keys -/

/-- How many visits lie between asking for a cluster and probing it. -/
def delay : Nat := 4

/-- The keys that were asked for and not yet probed. -/
abbrev Ring := Vector UInt64 delay

/-- The place of a visit's key. -/
def place (visit : Nat) : Fin delay := ⟨visit % delay, Nat.mod_lt _ (by decide)⟩

section

variable {σ : Type} [RandomSource σ]

/-! ## Drawing a visit -/

@[specialize]
def drawKey (keySpace : UInt64) (s : σ) : UInt64 × σ :=
  let (position, s) := RandomSource.below keySpace s
  (scramble position, s)

/-- The keys that a worker asks for before its first visit, where `draw` draws the next key. -/
@[specialize]
def drawRing (draw : σ → UInt64 × σ) (s : σ) : Ring × σ :=
  let (a, s) := draw s
  let (b, s) := draw s
  let (c, s) := draw s
  let (d, s) := draw s
  (#v[a, b, c, d], s)

/-- A position that was found is searched one ply deeper, up to this depth. -/
def greatestDepth : Depth := 40

@[specialize]
def drawDepth (p : Probe) (s : σ) : Depth × σ :=
  if p.found then (min (p.record.depth + 1) greatestDepth, s) else RandomSource.between 1 12 s

/-- One finding in eight is exact, four are upper bounds and three are lower ones. -/
def boundOf (choice : Int) : Bound :=
  if choice = 0 then .exact else if choice ≤ 4 then .upper else .lower

@[specialize]
def drawBound (s : σ) : Bound × σ :=
  let (choice, s) := RandomSource.between 0 7 s
  (boundOf choice, s)

/-- A finding that fails low has no move. -/
@[specialize]
def drawMove (bound : Bound) (s : σ) : Move × σ :=
  if bound = .upper then (.absent, s)
  else
    let (bits, s) := RandomSource.between 1 65535 s
    (⟨UInt16.ofNat bits.toNat⟩, s)

@[specialize]
def drawScore (greatest : Int) (s : σ) : Score × σ :=
  let (raw, s) := RandomSource.between (-greatest) greatest s
  (⟨Int32.ofInt raw⟩, s)

@[specialize]
def drawRecord (depth : Depth) (bound : Bound) (s : σ) : Record × σ :=
  let (move, s) := drawMove bound s
  let (value, s) := drawScore 2000 s
  let (eval, s) := drawScore 1000 s
  ({ move, value, eval, depth, bound, isPv := bound == .exact }, s)

/-! ## Workers -/

structure Worker (σ : Type) where
  table : Table
  source : σ
  ring : Ring

structure Visit where
  /-- The key whose cluster it asked for. -/
  fetched : UInt64
  probed : UInt64
  found : Bool
  wrote : Bool
deriving DecidableEq, Inhabited

def Visit.tally (v : Visit) : Tally := ⟨1, if v.found then 1 else 0, if v.wrote then 1 else 0⟩

namespace Worker

/-- One visit, where `draw` draws the next key. -/
@[specialize]
def step (draw : σ → UInt64 × σ) (visit : Nat) : Worker σ → Except Fault (Visit × Worker σ)
  | ⟨table, source, ring⟩ =>
    let (next, source) := draw source
    match table.prefetch next with
    | .error fault => .error fault
    | .ok () =>
      let key := ring[place visit]
      let ring := ring.set (place visit) next
      match table.probe key with
      | (.error fault, _) => .error fault
      | (.ok p, table) =>
        let (depth, source) := drawDepth p source
        let (bound, source) := drawBound source
        match table.shouldOverwrite p.writer key (bound == .exact) bound depth table.generation with
        | .error fault => .error fault
        | .ok false => .ok (⟨next, key, p.found, false⟩, ⟨table, source, ring⟩)
        | .ok true =>
          let (record, source) := drawRecord depth bound source
          let generation := table.generation
          match table.write p.writer key record generation with
          | (.error fault, _) => .error fault
          | (.ok (), table) => .ok (⟨next, key, p.found, true⟩, ⟨table, source, ring⟩)

/-- So many visits from a given one on, with their statistics added to those so far. -/
@[specialize]
def run (draw : σ → UInt64 × σ) :
    Nat → Nat → Tally → Worker σ → Except Fault (Tally × Worker σ)
  | 0, _, tally, w => .ok (tally, w)
  | count + 1, visit, tally, w =>
    match step draw visit w with
    | .error fault => .error fault
    | .ok (v, w) => run draw count (visit + 1) (tally.add v.tally) w

/-- A worker that has asked for its first keys. -/
@[specialize]
def start (draw : σ → UInt64 × σ) (table : Table) (source : σ) : Worker σ :=
  let (ring, source) := drawRing draw source
  ⟨table, source, ring⟩

end Worker

/-- A worker's whole work: its statistics and the table after it. -/
@[specialize]
def work (keySpace : UInt64) (nodes : Nat) (table : Table) (source : σ) :
    Except Fault (Tally × Table) :=
  let draw := drawKey keySpace
  match Worker.run draw nodes 0 .zero (Worker.start draw table source) with
  | .error fault => .error fault
  | .ok (tally, w) => .ok (tally, w.table)

end

/-! ## Searches -/

structure Plan where
  threads : Nat
  searches : Nat
  /-- How many visits each worker makes in a search. -/
  nodes : Nat
  keySpace : UInt64
  seed : UInt64
deriving DecidableEq, Inhabited

def Plan.workerSeed (plan : Plan) (search worker : Nat) : UInt64 :=
  plan.seed ^^^ (UInt64.ofNat search <<< 32) ^^^ UInt64.ofNat worker

/-- The workers of a search from a given one on. -/
def workers (plan : Plan) (search : Nat) :
    Nat → Nat → Tally → Table → Except Fault (Tally × Table)
  | 0, _, tally, table => .ok (tally, table)
  | count + 1, worker, tally, table =>
    match work plan.keySpace plan.nodes table (Xoshiro.ofSeed (plan.workerSeed search worker)) with
    | .error fault => .error fault
    | .ok (own, table) => workers plan search count (worker + 1) (tally.add own) table

structure Report where
  /-- The search's number, from 1. -/
  number : Nat
  tally : Tally
  hashfull : Nat
  /-- The share of slots that are at most seven searches old. -/
  hashfullRecent : Nat
deriving DecidableEq, Inhabited

def search (plan : Plan) (number : Nat) (table : Table) : Except Fault (Report × Table) := do
  let (tally, table) ← workers plan number plan.threads 0 .zero table.newSearch
  let hashfull ← table.hashfull
  let hashfullRecent ← table.hashfullWithAge 7
  pure (⟨number + 1, tally, hashfull, hashfullRecent⟩, table)

/-- How a run ended: the reports of its searches, and the table after them or why it stopped. -/
structure Result where
  reports : List Report
  ending : Except Fault Table

/-- Searches from a given one on. -/
def searches (plan : Plan) : Nat → Nat → Table → Result
  | 0, _, table => ⟨[], .ok table⟩
  | count + 1, number, table =>
    match search plan number table with
    | .error fault => ⟨[], .error fault⟩
    | .ok (report, table) =>
      let later := searches plan count (number + 1) table
      ⟨report :: later.reports, later.ending⟩

def run (plan : Plan) (table : Table) : Result := searches plan plan.searches 0 table

/-- The statistics of all searches. -/
def total (reports : List Report) : Tally := (reports.map (·.tally)).foldl Tally.add .zero

end PositionCache.Stress
