import PositionCache.Fault
import PositionCache.Stamp

/-!
# Entries

An entry packs a record into ten bytes, beside the low sixteen bits of the key it belongs to and a
stamp. A position is told from another of its cluster by that tag alone. The depth is kept as its
distance from the least depth, which is never 0 for a stored record, so depth byte 0 marks an empty
slot and the all-zero entry is empty.
-/

namespace PositionCache

structure Entry where
  /-- The low sixteen bits of the position's key. -/
  tag : UInt16
  /-- The depth's distance from `Depth.offset`; 0 in an empty slot. -/
  depthByte : UInt8
  stamp : Stamp
  move : Move
  value : Int16
  eval : Int16
deriving DecidableEq

def tagOf (key : UInt64) : UInt16 := key.toUInt16

namespace Entry

/-- The bytes of an entry: three of two bytes and a depth, a stamp, a move. -/
def bytes : Nat := 10

def empty : Entry := ⟨0, 0, 0, .absent, 0, 0⟩

instance : Inhabited Entry := ⟨empty⟩

/-! ## Reading -/

def isOccupied (e : Entry) : Bool := e.depthByte != 0

def depth (e : Entry) : Depth := e.depthByte.toNat + Depth.offset

def read (e : Entry) : Record where
  move := e.move
  value := .ofNarrow e.value
  eval := .ofNarrow e.eval
  depth := e.depth
  bound := Stamp.bound e.stamp
  isPv := Stamp.isPv e.stamp

/-- The slot is in use and may belong to a key with this tag. -/
def Holds (e : Entry) (tag : UInt16) : Prop := e.tag = tag ∧ e.isOccupied

instance (e : Entry) (tag : UInt16) : Decidable (e.Holds tag) := inferInstanceAs (Decidable (_ ∧ _))

/-- How many searches ago, modulo 32, the slot was last written or found. -/
def age (e : Entry) (generation : UInt8) : Nat := Stamp.age e.stamp generation

/-- The slot is in use and was written or found in this generation. -/
def isCurrent (e : Entry) (generation : UInt8) : Bool :=
  e.isOccupied && Stamp.generation e.stamp == generation

/-! ## Writing -/

/-- The entry after a record is written over it. A record without a move keeps the old move and
one without an evaluation keeps the old evaluation, where the tag stays the same. -/
def overwrite (e : Entry) (tag : UInt16) (r : Record) (generation : UInt8) : Entry where
  tag := tag
  depthByte := UInt8.ofNat (r.depth - Depth.offset).toNat
  stamp := Stamp.pack generation r.isPv r.bound
  move := if r.move.isAbsent && tag == e.tag then e.move else r.move
  value := r.value.narrow
  eval := if r.eval == .unknown && tag == e.tag then e.eval else r.eval.narrow

/-- Writes a record that fits a slot, under a generation that fits a stamp. -/
def save (e : Entry) (tag : UInt16) (r : Record) (generation : UInt8) : Except Fault Entry :=
  if ¬ Depth.Storable r.depth then .error (.depthOutOfRange r.depth)
  else if ¬ Stamp.Aligned generation then .error .unalignedGeneration
  else .ok (e.overwrite tag r generation)

def refresh (e : Entry) (generation : UInt8) : Entry :=
  { e with stamp := Stamp.refresh e.stamp generation }

/-! ## Replacing -/

def ageWeight : Nat := 8

/-- Below the worth of every occupied slot. -/
def worthless : Int := -0x80000000

/-- What a slot is worth keeping: its depth, less its age. An empty slot is worth least. -/
def worth (e : Entry) (generation : UInt8) : Int :=
  if e.isOccupied then (e.depthByte.toNat : Int) - (ageWeight * e.age generation : Nat)
  else worthless

/-- Whether a finding should be written over the slot: an exact one, one of another position, one
that is not much shallower than what is there, or any at all over an old entry. The sums are of
depth words, and the second is formed only where the first two reasons fail. -/
def shouldYield (e : Entry) (tag : UInt16) (isPv : Bool) (bound : Bound) (depth : Depth)
    (generation : UInt8) : Except Fault Bool :=
  let distance := depth - Depth.offset
  if depthLimit < distance then .error (.overflow .subtract)
  else if bound = .exact ∨ tag ≠ e.tag then .ok true
  else
    let bonus := distance + if isPv then 2 else 0
    if depthLimit < bonus then .error (.overflow .add)
    else .ok (decide ((e.depthByte.toNat : Int) - 4 < bonus ∨ e.age generation ≠ 0))

end Entry

end PositionCache
