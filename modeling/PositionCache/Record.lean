/-!
# What a search hands over

The words that a search stores for a position and reads back: a move, two scores, a depth, a
bound and the mark of a principal variation. The cache knows their widths and nothing else
about them.
-/

namespace PositionCache

/-! ## Depth -/

/-- How many plies a position was searched; negative depths belong to quiescence. -/
abbrev Depth := Int

namespace Depth

/-- The depth that an empty slot reads as. A stored depth is kept as its distance from here. -/
def offset : Depth := -7

/-- The least depth that can be stored; its distance from `offset` is 1, since 0 marks an empty slot. -/
def least : Depth := offset + 1

/-- The greatest depth that can be stored; its distance from `offset` fills a byte. -/
def greatest : Depth := offset + 255

def Storable (d : Depth) : Prop := least ≤ d ∧ d ≤ greatest

instance (d : Depth) : Decidable (Storable d) := inferInstanceAs (Decidable (_ ∧ _))

end Depth

/-! ## Moves -/

/-- A move in sixteen bits, whose meaning is the search's own. -/
structure Move where
  bits : UInt16
deriving DecidableEq, Inhabited

namespace Move

def absent : Move := ⟨0⟩

def isAbsent (m : Move) : Bool := m.bits == 0

end Move

/-! ## Scores -/

/-- A score of the search, in 32 bits. A slot keeps its low sixteen. -/
structure Score where
  raw : Int32
deriving DecidableEq, Inhabited

namespace Score

def zero : Score := ⟨0⟩

def mate : Score := ⟨32000⟩

def infinite : Score := ⟨32001⟩

/-- The score of a position that was not evaluated. -/
def unknown : Score := ⟨32002⟩

instance : Ord Score := ⟨fun a b => compare a.raw b.raw⟩

def greater (a b : Score) : Score := if a.raw ≤ b.raw then b else a

def narrow (s : Score) : Int16 := s.raw.toInt16

def ofNarrow (w : Int16) : Score := ⟨w.toInt32⟩

theorem narrow_ofNarrow (w : Int16) : (ofNarrow w).narrow = w := Int16.toInt16_toInt32 w

end Score

/-! ## Bounds -/

/-- What a stored value says about the true one. -/
inductive Bound where
  | none
  | upper
  | lower
  | exact
deriving DecidableEq, Inhabited

namespace Bound

/-- Two bits: the low one for an upper bound, the high one for a lower bound. -/
def toBits : Bound → UInt8
  | .none => 0
  | .upper => 1
  | .lower => 2
  | .exact => 3

/-- Reads the two low bits and ignores the others. -/
def ofBits (bits : UInt8) : Bound :=
  if bits &&& 3 = 0 then .none
  else if bits &&& 3 = 1 then .upper
  else if bits &&& 3 = 2 then .lower
  else .exact

def boundsBelow (b : Bound) : Bool := b.toBits &&& lower.toBits != 0

def boundsAbove (b : Bound) : Bool := b.toBits &&& upper.toBits != 0

def name : Bound → String
  | .none => "None"
  | .upper => "Upper"
  | .lower => "Lower"
  | .exact => "Exact"

theorem ofBits_toBits (b : Bound) : ofBits b.toBits = b := by cases b <;> rfl

end Bound

/-! ## Records -/

structure Record where
  move : Move
  value : Score
  eval : Score
  depth : Depth
  bound : Bound
  isPv : Bool
deriving DecidableEq

namespace Record

/-- What a probe that finds nothing answers. Its depth is no storable one. -/
def empty : Record where
  move := .absent
  value := .unknown
  eval := .unknown
  depth := Depth.offset
  bound := .none
  isPv := false

instance : Inhabited Record := ⟨empty⟩

end Record

end PositionCache
