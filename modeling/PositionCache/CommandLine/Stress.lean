import PositionCache.Binary64.Text
import PositionCache.CommandLine.Transcript
import PositionCache.Workload.Stress

/-!
# The stress program

Reads what to do from its command line, makes a table, runs the searches, and shows the statistics
of each in the log and of all in its output.
-/

namespace PositionCache.CommandLine.Stress

open PositionCache.Stress

def program : String := "tt_stress"

def about : String := "置換表に並列の probe/write 負荷をかけて統計を出力する"

/-- What is done when the command line does not say. -/
def usualPlan : Plan where
  threads := 4
  searches := 8
  nodes := 500000
  keySpace := 1048576
  seed := 0x5EED

def choices : List Choice := tableChoices ++ [
  ⟨"threads", some 't', .number, "探索スレッド数", usualPlan.threads⟩,
  ⟨"searches", none, .number, "探索（new_search）の回数", usualPlan.searches⟩,
  ⟨"nodes", none, .number, "1スレッド・1探索あたりのノード数", usualPlan.nodes⟩,
  ⟨"key-space", none, .number, "局面キーの種類数", usualPlan.keySpace.toNat⟩,
  ⟨"seed", none, .number, "乱数シード", usualPlan.seed.toNat⟩,
  debugChoice]

structure Command where
  table : TableRequest
  plan : Plan
  debug : Bool
deriving DecidableEq, Inhabited

def Command.ofGiven (g : Given) : Command where
  table := .ofGiven g
  plan := {
    threads := (g.number? "threads").getD usualPlan.threads
    searches := (g.number? "searches").getD usualPlan.searches
    nodes := (g.number? "nodes").getD usualPlan.nodes
    keySpace := ((g.number? "key-space").map UInt64.ofNat).getD usualPlan.keySpace
    seed := ((g.number? "seed").map UInt64.ofNat).getD usualPlan.seed }
  debug := g.has "debug"

def parse (arguments : List String) : Except Stop Command := do
  pure (.ofGiven (← read choices arguments))

def planError? (plan : Plan) : Option String :=
  if plan.threads = 0 then some "--threads must be at least 1"
  else if plan.keySpace = 0 then some "--key-space must be at least 1"
  else none

/-- The text with blanks in front up to a width. -/
def padLeft (width : Nat) (text : String) : String :=
  String.ofList (List.replicate (width - text.length) ' ') ++ text

def startNotice (plan : Plan) : Notice :=
  ⟨.info, s!"stress: threads={plan.threads} searches={plan.searches}" ++
    s!" nodes/thread={plan.nodes} key_space={plan.keySpace.toNat}"⟩

def searchNotices (r : Report) : List Notice :=
  let label := "search " ++ padLeft 3 (toString r.number)
  let hit := (percent r.tally.hits r.tally.nodes).fixed 1
  [⟨.info, label ++ s!": hit={hit}% writes={r.tally.writes} hashfull={r.hashfull}"⟩,
   ⟨.debug, label ++ s!": hashfull(age<=7)={r.hashfullRecent}"⟩]

def summary (table : Table) (hashfull : Nat) (t : Tally) : List String := [
  s!"size_mb        {table.sizeMb}",
  s!"clusters       {table.clusterCount}",
  s!"large_pages    {table.largePages}",
  s!"nodes          {t.nodes}",
  "hit_rate       " ++ (percent t.hits t.nodes).fixed 2 ++ "%",
  "write_rate     " ++ (percent t.writes t.nodes).fixed 2 ++ "%",
  s!"hashfull       {hashfull}"]

def run (m : Machine) (readFile : String → Option ByteArray) (c : Command) : Transcript :=
  match planError? c.plan with
  | some message => ⟨[], [], .failed message⟩
  | none =>
    match c.table.make m readFile with
    | .error ending => ⟨[], [], ending⟩
    | .ok table =>
      let opening := [table.madeNotice, startNotice c.plan]
      let result := PositionCache.Stress.run c.plan table
      let log := shown c.debug (opening ++ result.reports.flatMap searchNotices)
      let closing := do
        let table ← result.ending
        pure (summary table (← table.hashfull) (total result.reports))
      match closing with
      | .error fault => ⟨[], log, .stopped fault⟩
      | .ok lines => ⟨lines, log, .finished⟩

end PositionCache.CommandLine.Stress
