import DataTree.Decimal.Rounding

/-!
# DataTree.Decimal.Reader

Reading decimals.

    plain      = [ "+" | "-" ] , digits , [ "." , digits ]
    scientific = plain , ( "e" | "E" ) , exponent

with at least one digit around the point and underscores anywhere after the
first digit.  A plain text may have more digits than a decimal can hold:

1. digits are taken from the left until there are 28 of them after the point, or
   until one after the point does not fit into the coefficient;
2. the digit at which reading stops rounds the number, five and more away from
   zero; the digits behind it count for nothing, but must be digits;
3. digits before the point that do not fit are an error.

An underscore behind 28 fractional digits stands for a zero that rounds nothing, unless
the number is wide; then it is passed over, and the digit behind it rounds.

A plain zero has no sign.  An exponent moves the point.  Where that asks for more than
28 fractional digits the number is rounded first, which leaves its sign even to a zero,
and where it asks for a whole number that is too large there is no decimal.
-/

namespace DataTree.Decimal

/-! ## Plain numerals -/

/-- Whether a coefficient is wide: without its last digit it is at least a tenth of the
largest word of 64 bits, less 255. -/
def isWide (n : Nat) : Bool := 1844674407370954906 ≤ n / 10

/-- Whether what follows the rounding digit is digits and underscores only. -/
def isTail (cs : List Char) : Bool :=
  cs.all fun c => c == '_' || (Numeral.digit? c).isSome

/-- Round a coefficient by the digit behind it.  If rounding makes it too large,
one fractional digit is given up. -/
def roundBy? (n scale d : Nat) : Option (Nat × Nat) :=
  if d < 5 then some (n, scale)
  else if n + 1 < limit then some (n + 1, scale)
  else if scale = 0 then none
  else some ((n + 5) / 10, scale - 1)

/-- Magnitude and scale of a numeral without sign: `n` has been read so far, with
`scale` digits behind the point if `point` holds; `started` says whether there
was a digit. -/
def readMagnitude? (point started : Bool) (n scale : Nat) : List Char → Option (Nat × Nat)
  | [] => if started then some (n, scale) else none
  | c :: cs =>
    match Numeral.digit? c with
    | some d =>
      if (point && scale == 28) || (point && limit ≤ 10 * n + d) then
        if isTail cs then roundBy? n scale d else none
      else if limit ≤ 10 * n + d then none
      else readMagnitude? point true (10 * n + d) (if point then scale + 1 else 0) cs
    | none =>
      if c = '.' && !point then readMagnitude? true started n scale cs
      else if c = '_' && started then
        if point && scale == 28 && !isWide n then
          if isTail cs then some (n, scale) else none
        else readMagnitude? point started n scale cs
      else none

/-- A numeral with an optional sign. -/
def readPlain? (cs : List Char) : Option Decimal :=
  match cs with
  | '-' :: cs =>
    (readMagnitude? false false 0 0 cs).bind fun (n, s) => ofParts? (n != 0) n s
  | '+' :: cs => (readMagnitude? false false 0 0 cs).bind fun (n, s) => ofParts? false n s
  | cs => (readMagnitude? false false 0 0 cs).bind fun (n, s) => ofParts? false n s

/-! ## Exponents -/

/-- An exponent's number: digits after an optional plus sign, of a number with 32 bits. -/
def readExponent? (cs : List Char) : Option Nat :=
  (Numeral.readUnsigned? cs).bind fun n => if n < UInt32.size then some n else none

/-- Move the point to the left. -/
def shiftLeft? (d : Decimal) (n : Nat) : Option Decimal :=
  if 28 < n then none
  else if d.scale + n ≤ 28 then ofParts? d.negative d.magnitude (d.scale + n)
  else ofParts? d.negative (d.roundAwayTo (28 - n)).magnitude 28

/-- Move the point to the right; past the last digit the number becomes whole. -/
def shiftRight? (d : Decimal) (n : Nat) : Option Decimal :=
  if n ≤ d.scale then ofParts? d.negative d.magnitude (d.scale - n)
  else if 28 < n then none
  else ofParts? d.negative (d.magnitude * Nat.pow 10 (n - d.scale)) 0

/-- Whether a character starts an exponent. -/
def isExponentMark (c : Char) : Bool := c == 'e' || c == 'E'

/-- A numeral with an exponent behind the first mark. -/
def readScientific? (cs : List Char) : Option Decimal :=
  let base := cs.takeWhile fun c => !isExponentMark c
  match cs.dropWhile fun c => !isExponentMark c with
  | [] => none
  | _ :: exponent => do
    let d ← readPlain? base
    match exponent with
    | '-' :: digits => shiftLeft? d (← readExponent? digits)
    | digits => shiftRight? d (← readExponent? digits)

/-- The decimal that a text denotes, if it denotes one. -/
def read? (cs : List Char) : Option Decimal := (readPlain? cs).orElse fun _ => readScientific? cs

/-- The scale of a decimal is the number of digits written behind the point. -/
example : (read? "1.50".toList).map (·.scale) = some 2 := by decide +kernel

/-- The digit behind the twenty-eighth rounds, away from zero from five on. -/
example : (read? "0.00000000000000000000000000005".toList).map (·.magnitude) = some 1 := by
  decide +kernel

end DataTree.Decimal
