import PositionCache.Binary64.Text
import PositionCache.CommandLine.Transcript
import PositionCache.Workload.Collision

/-!
# The collision program

Reads what to do from its command line, makes a table, fills it, and shows how many keys that were
never written are found in it, beside the share to expect.
-/

namespace PositionCache.CommandLine.Collision

open PositionCache.Collision

def program : String := "tt_collision"

def about : String := "置換表の誤ヒット（キー衝突）率を測定する"

/-- What is done when the command line does not say. -/
def usualPlan : Plan where
  fillPercent := 66
  probes := 1000000
  seed := 0xC011

def choices : List Choice := tableChoices ++ [
  ⟨"fill-percent", none, .number, "エントリ総数に対する書き込み件数（%）", usualPlan.fillPercent⟩,
  ⟨"probes", none, .number, "誤ヒット測定に使う probe 回数", usualPlan.probes⟩,
  ⟨"seed", none, .number, "乱数シード", usualPlan.seed.toNat⟩,
  debugChoice]

structure Command where
  table : TableRequest
  plan : Plan
  debug : Bool
deriving DecidableEq, Inhabited

def Command.ofGiven (g : Given) : Command where
  table := .ofGiven g
  plan := {
    fillPercent := (g.number? "fill-percent").getD usualPlan.fillPercent
    probes := (g.number? "probes").getD usualPlan.probes
    seed := ((g.number? "seed").map UInt64.ofNat).getD usualPlan.seed }
  debug := g.has "debug"

def parse (arguments : List String) : Except Stop Command := do
  pure (.ofGiven (← read choices arguments))

/-- The greatest share of keys to write, in hundredths of the slots. -/
def greatestFillPercent : Nat := 1000

def planError? (plan : Plan) : Option String :=
  if greatestFillPercent < plan.fillPercent then
    some s!"--fill-percent must be at most {greatestFillPercent}"
  else if plan.probes = 0 then some "--probes must be at least 1"
  else none

def fillNotice (writes fillPercent : Nat) : Notice :=
  ⟨.info, s!"filling {writes} entries ({fillPercent}%)"⟩

def occupancyNotice (hashfull : Nat) : Notice :=
  ⟨.debug, "sampled occupancy " ++ (share hashfull 1000).fixed 3⟩

/-- What the measurement found, and what was to be expected. -/
def summary (clusterCount hashfull falseHits probes : Nat) : List String :=
  let occupied := share hashfull 1000
  [s!"clusters       {clusterCount}",
   "occupancy      " ++ occupied.fixed 3,
   s!"false_hits     {falseHits} / {probes}",
   "measured_rate  " ++ (share falseHits probes).scientific 3,
   "estimated_rate " ++ (estimate occupied Cluster.size).scientific 3]

def run (m : Machine) (readFile : String → Option ByteArray) (c : Command) : Transcript :=
  match planError? c.plan with
  | some message => ⟨[], [], .failed message⟩
  | none =>
    match c.table.make m readFile with
    | .error ending => ⟨[], [], ending⟩
    | .ok table =>
      let opening := [table.madeNotice]
      match c.plan.writes table with
      | .error fault => ⟨[], opening, .stopped fault⟩
      | .ok writes =>
        let opening := opening ++ [fillNotice writes c.plan.fillPercent]
        let filled := do
          let (table, source) ← fill writes table (Xoshiro.ofSeed c.plan.seed)
          pure (← table.hashfull, table, source)
        match filled with
        | .error fault => ⟨[], opening, .stopped fault⟩
        | .ok (hashfull, table, source) =>
          let log := shown c.debug (opening ++ [occupancyNotice hashfull])
          match measure c.plan.probes 0 table source with
          | .error fault => ⟨[], log, .stopped fault⟩
          | .ok (falseHits, table, _) =>
            ⟨summary table.clusterCount hashfull falseHits c.plan.probes, log, .finished⟩

end PositionCache.CommandLine.Collision
