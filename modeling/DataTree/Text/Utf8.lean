import DataTree.Text.CharSet

/-!
# DataTree.Text.Utf8

The UTF-8 form of characters, and of intervals of characters.

A code point is written in one byte or with a first byte and up to three further
bytes, each of which holds six bits.  An interval of code points becomes a list of
byte patterns, sequences of byte intervals: `U+0900` to `U+097F` are those with the
bytes `E0`, `A4` to `A5`, `80` to `BF`.  Patterns come in ascending order and do not
overlap.
-/

namespace DataTree.Text.Utf8

/-- The number of bytes behind the first one. -/
def following (n : Nat) : Nat :=
  if n < 0x80 then 0 else if n < 0x800 then 1 else if n < 0x10000 then 2 else 3

/-- The number of bytes of a code point. -/
def width (n : Nat) : Nat := following n + 1

/-- What a first byte adds to its bits, by the number of bytes behind it. -/
def lead : Nat → Nat
  | 0 => 0
  | 1 => 0xC0
  | 2 => 0xE0
  | _ => 0xF0

/-- The lowest `count` groups of six bits, as further bytes. -/
def tail (n : Nat) : (count : Nat) → List Nat
  | 0 => []
  | count + 1 => (0x80 + (n >>> (6 * count)) % 64) :: tail n count

/-- The bytes of a code point. -/
def bytes (n : Nat) : List Nat :=
  (lead (following n) + n >>> (6 * following n)) :: tail n (following n)

/-! ## Intervals -/

/-- A byte pattern: the bounds of each byte. -/
abbrev BytePattern := List (Nat × Nat)

/-- The pattern of any `count` further bytes. -/
def anyTail (count : Nat) : BytePattern := List.replicate count (0x80, 0xBF)

/-- The patterns of the numbers from `lo` to `hi`, both of at most `6 * (count + 1)` bits;
`mark` is what their first byte adds to its bits.  Where the first bytes of the ends
differ, an incomplete group at either end has a pattern of its own. -/
def cover (mark : Nat) : (count lo hi : Nat) → List BytePattern
  | 0, lo, hi => [[(mark + lo, mark + hi)]]
  | count + 1, lo, hi =>
    let unit := 1 <<< (6 * (count + 1))
    let (first, last) := (lo / unit, hi / unit)
    let one (byte lo hi : Nat) : List BytePattern :=
      (cover 0x80 count lo hi).map ((mark + byte, mark + byte) :: ·)
    if first = last then one first (lo % unit) (hi % unit)
    else
      let low := if lo % unit = 0 then [] else one first (lo % unit) (unit - 1)
      let high := if hi % unit + 1 = unit then [] else one last 0 (hi % unit)
      let start := if lo % unit = 0 then first else first + 1
      let stop := if hi % unit + 1 = unit then last + 1 else last
      let middle :=
        if start < stop then [(mark + start, mark + (stop - 1)) :: anyTail (count + 1)] else []
      low ++ middle ++ high

/-- The patterns of an interval of code points. -/
def patternsBetween (lo hi : Nat) : List BytePattern :=
  [(0, 0x7F, 0), (0x80, 0x7FF, 1), (0x800, 0xFFFF, 2), (0x10000, 0x10FFFF, 3)].flatMap
    fun (least, greatest, count) =>
      if max lo least ≤ min hi greatest then
        cover (lead count) count (max lo least) (min hi greatest)
      else []

/-- The patterns of a set of characters. -/
def patterns (s : CharSet) : List BytePattern :=
  s.intervals.flatMap fun (lo, hi) => patternsBetween lo hi

/-- A script whose characters have three bytes. -/
example : patternsBetween 0x900 0x97F = [[(0xE0, 0xE0), (0xA4, 0xA5), (0x80, 0xBF)]] := by
  decide +kernel

end DataTree.Text.Utf8
