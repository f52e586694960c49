import PositionCache.CommandLine
import PositionCache.Notice
import PositionCache.Settings.Layers
import PositionCache.Table.Upkeep

/-!
# What a program run shows

A run writes lines and a log, and ends well, with a message, or by a fault. Both programs make
their table in the same way: from a settings file, if one is named, and from their command line.
-/

namespace PositionCache.CommandLine

inductive Ending where
  | finished
  | failed (message : String)
  | stopped (fault : Fault)
deriving DecidableEq, Inhabited

namespace Ending

/-- The number that the run leaves to whoever started it. -/
def exitCode : Ending → Nat
  | .finished => 0
  | .failed _ => 1
  | .stopped _ => 101

def message? : Ending → Option String
  | .finished => none
  | .failed message => some ("Error: " ++ message)
  | .stopped fault => some fault.message

end Ending

/-- The number that a program leaves that does not understand its command line. -/
def usageExitCode : Nat := 2

structure Transcript where
  output : List String
  log : List Notice
  ending : Ending

/-- The notices that are shown: those for debugging only on demand. -/
def shown (debug : Bool) (log : List Notice) : List Notice :=
  log.filter fun n => debug || n.level != .debug

/-! ## The table of a run -/

structure TableRequest where
  config : Option String
  layer : Overrides
deriving DecidableEq, Inhabited

def tableChoices : List Choice := [
  ⟨"config", none, .path,
    "設定ファイル（TOML）。指定したCLI引数がファイルの値より優先される", none⟩,
  ⟨"hash-mb", none, .number, "テーブルサイズ（MB）", none⟩,
  ⟨"init-threads", none, .number, "ゼロクリアに使うスレッド数", none⟩,
  ⟨"no-large-pages", none, .nothing, "Large Pages を使わない", none⟩]

def debugChoice : Choice := ⟨"debug", some 'd', .nothing, "デバッグログを有効化", none⟩

namespace TableRequest

def ofGiven (g : Given) : TableRequest where
  config := g.lookup "config"
  layer := {
    hashMb := g.number? "hash-mb"
    threads := g.number? "init-threads"
    largePages := if g.has "no-large-pages" then some false else none }

/-- Makes the table, or says how the run ends. -/
def make (r : TableRequest) (m : Machine) (readFile : String → Option ByteArray) :
    Except Ending Table := do
  let file? := r.config.map fun path => ⟨path, readFile path⟩
  let settings ← (Settings.resolve m.processors file? r.layer).mapError fun e => .failed e.message
  (Table.make m settings).mapError fun
    | .refused refusal => .failed refusal.message
    | .stopped fault => .stopped fault

end TableRequest

end PositionCache.CommandLine
