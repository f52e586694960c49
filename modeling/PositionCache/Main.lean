import PositionCache.CommandLine.Collision
import PositionCache.CommandLine.Stress

/-!
# The programs

One executable holds both programs; its first argument names the one to run.
-/

namespace PositionCache.Main

open CommandLine

/-- Blocks that are tried on this machine. -/
def machine : Machine where
  processors := 1
  grants := fun layout => layout.size < 0x10000000000

def contents? (path : String) : IO (Option ByteArray) := do
  try
    pure (some (← IO.FS.readBinFile path))
  catch _ => pure none

def display (t : Transcript) : IO UInt32 := do
  for n in t.log do
    IO.eprintln s!"[{n.level.name}] {n.text}"
  for line in t.output do
    IO.println line
  match t.ending.message? with
  | some message => IO.eprintln message
  | none => pure ()
  pure (UInt32.ofNat t.ending.exitCode)

def stop (program about : String) (choices : List Choice) : Stop → IO UInt32
  | .help => do
    for line in helpLines program about choices do
      IO.println line
    pure 0
  | .usage error => do
    IO.eprintln s!"error: {error.message}"
    pure (UInt32.ofNat usageExitCode)

def readFor (r : TableRequest) : IO (String → Option ByteArray) := do
  match r.config with
  | none => pure fun _ => none
  | some path =>
    let bytes ← contents? path
    pure fun _ => bytes

end PositionCache.Main

open PositionCache CommandLine in
def main (arguments : List String) : IO UInt32 := do
  match arguments with
  | "stress" :: rest =>
    match Stress.parse rest with
    | .error s => PositionCache.Main.stop Stress.program Stress.about Stress.choices s
    | .ok c => PositionCache.Main.display (Stress.run PositionCache.Main.machine
        (← PositionCache.Main.readFor c.table) c)
  | "collision" :: rest =>
    match Collision.parse rest with
    | .error s => PositionCache.Main.stop Collision.program Collision.about Collision.choices s
    | .ok c => PositionCache.Main.display (Collision.run PositionCache.Main.machine
        (← PositionCache.Main.readFor c.table) c)
  | _ => do
    IO.eprintln "usage: stress [OPTIONS] or collision [OPTIONS]"
    pure (UInt32.ofNat usageExitCode)
