import PositionCache.Cluster

/-!
# Clearing storage

A small table is cleared by one worker, and a large one by several at once, each over its own span
of clusters. The spans cut the row into pieces of one length, the last of which may be shorter, so
the workers never meet and nothing is left out.
-/

namespace PositionCache

/-- The clusters from `start` on, `count` of them. -/
structure Span where
  start : Nat
  count : Nat
deriving DecidableEq, Inhabited

namespace Zeroing

/-- With fewer clusters than this for each worker, one of them clears them all. -/
def clustersPerWorker : Nat := 1024

/-- The spans of several workers: those that begin within the row. -/
def shares (clusters workers : Nat) : List Span :=
  let length := (clusters + workers - 1) / workers
  ((List.range workers).takeWhile fun i => i * length < clusters).map fun i =>
    ⟨i * length, min length (clusters - i * length)⟩

/-- The spans that `workers` clear among them. -/
def spans (clusters workers : Nat) : Except Fault (List Span) :=
  if workers ≤ 1 then .ok [⟨0, clusters⟩]
  else do
    let worthwhile ← checkedProduct workers clustersPerWorker
    if clusters < worthwhile then .ok [⟨0, clusters⟩] else .ok (shares clusters workers)

def blank (row : Array Cluster) (start : Nat) : Nat → Array Cluster
  | 0 => row
  | count + 1 => blank (row.setIfInBounds start .empty) (start + 1) count

def blankSpan (row : Array Cluster) (s : Span) : Array Cluster := blank row s.start s.count

def blankSpans (row : Array Cluster) (ss : List Span) : Array Cluster := ss.foldl blankSpan row

end Zeroing

end PositionCache
