import PositionCache.Record
import PositionCache.Word

/-!
# Faults

A fault stops an operation whose caller broke a condition, or whose numbers left their machine
word. It is no answer of the cache: what an operation may answer is a `Refusal`. An operation that
can fault says what it had changed by then.
-/

namespace PositionCache

inductive Arithmetic where
  | add
  | subtract
  | multiply
deriving DecidableEq, Inhabited

namespace Arithmetic

def verb : Arithmetic → String
  | .add => "add"
  | .subtract => "subtract"
  | .multiply => "multiply"

end Arithmetic

/-- Why an operation stopped. -/
inductive Fault where
  | depthOutOfRange (depth : Depth)
  /-- The generation has one of its three low bits set. -/
  | unalignedGeneration
  | overflow (operation : Arithmetic)
  /-- A cluster was asked for that the storage does not hold. -/
  | outOfBounds (size index : Nat)
  | divisionByZero
deriving DecidableEq, Inhabited

namespace Fault

def message : Fault → String
  | .depthOutOfRange depth => s!"depth out of storable range: {depth}"
  | .unalignedGeneration => "assertion failed: generation8 & (GENERATION_DELTA - 1) == 0"
  | .overflow operation => s!"attempt to {operation.verb} with overflow"
  | .outOfBounds size index => s!"index out of bounds: the len is {size} but the index is {index}"
  | .divisionByZero => "attempt to divide by zero"

end Fault

/-! ## Checked arithmetic -/

/-- The product of two counts, where it is still a word. -/
def checkedProduct (a b : Nat) : Except Fault Nat :=
  if a * b < wordLimit then .ok (a * b) else .error (.overflow .multiply)

theorem checkedProduct_eq_ok {a b : Nat} (h : a * b < wordLimit) :
    checkedProduct a b = .ok (a * b) := by
  simp [checkedProduct, h]

/-- The depth words are signed and have 32 bits: this is the greatest. -/
def depthLimit : Depth := 0x7FFFFFFF

end PositionCache
