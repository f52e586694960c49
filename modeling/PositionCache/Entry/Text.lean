import PositionCache.Entry
import PositionCache.Outline

/-!
# Entries and records as text

How a slot and what it stores are shown for inspection: words of the packed form in hexadecimal,
the rest in decimal.
-/

namespace PositionCache

/-- `0x` and the digits of `n` in base 16, at least `width` of them. -/
def hexText (width n : Nat) : String :=
  let digits := Nat.toDigits 16 n
  "0x" ++ String.ofList (List.replicate (width - digits.length) '0' ++ digits)

namespace Move

def outline (m : Move) : Outline := .wrapped "Move" (.word (toString m.bits.toNat))

end Move

namespace Score

def outline (s : Score) : Outline := .wrapped "Value" (.word (toString s.raw.toInt))

end Score

namespace Record

def outline (r : Record) : Outline :=
  .labelled "TTData" [
    ("mv", r.move.outline),
    ("value", r.value.outline),
    ("eval", r.eval.outline),
    ("depth", .word (toString r.depth)),
    ("bound", .word r.bound.name),
    ("is_pv", .word (toString r.isPv))]

end Record

namespace Entry

def outline (e : Entry) : Outline :=
  .labelled "TTEntry" [
    ("key16", .word (hexText 4 e.tag.toNat)),
    ("depth8", .word (toString e.depthByte.toNat)),
    ("gen_bound8", .word (hexText 2 e.stamp.toNat)),
    ("data", e.read.outline)]

end Entry

end PositionCache
