import DataTree.Numeral

/-!
# DataTree.Settings.TomlNumber

Numbers and dates in TOML, as far as settings need them: whether a text is one.

An integer has to fit into 64 bits with sign.  A floating-point number may have any
number of digits, but one that would be rounded to positive infinity is an error.
-/

namespace DataTree.Toml

/-! ## Integers -/

def hexDigit? (c : Char) : Option Nat :=
  if '0' ≤ c ∧ c ≤ '9' then some (c.toNat - '0'.toNat)
  else if 'a' ≤ c ∧ c ≤ 'f' then some (c.toNat - 'a'.toNat + 10)
  else if 'A' ≤ c ∧ c ≤ 'F' then some (c.toNat - 'A'.toNat + 10)
  else none

/-- Digits with single underscores between them. -/
def isDigitRun (isDigit : Char → Bool) : List Char → Bool
  | [] => false
  | [c] => isDigit c
  | c :: '_' :: cs => isDigit c && isDigitRun isDigit cs
  | c :: cs => isDigit c && isDigitRun isDigit cs

def dropSign : List Char → List Char
  | '+' :: cs => cs
  | '-' :: cs => cs
  | cs => cs

/-- A decimal integer without leading zeros. -/
def isPlainInteger (cs : List Char) : Bool :=
  let digits := dropSign cs
  isDigitRun Char.isDigit digits && (digits.head? != some '0' || digits.length == 1)

/-- Digits of a base that denote a number which fits into a signed word of 64 bits. -/
def isBaseInteger (base : Nat) (ds : List Char) : Bool :=
  let digit? (c : Char) := (hexDigit? c).filter (· < base)
  let value? := (ds.filter (· != '_')).foldlM (fun n c => (digit? c).map (base * n + ·)) 0
  isDigitRun (fun c => (digit? c).isSome) ds && value?.any fun n => (Numeral.int64? n).isSome

/-- An integer that fits into a signed word of 64 bits. -/
def isInteger (cs : List Char) : Bool :=
  match cs with
  | '0' :: 'x' :: ds => isBaseInteger 16 ds
  | '0' :: 'o' :: ds => isBaseInteger 8 ds
  | '0' :: 'b' :: ds => isBaseInteger 2 ds
  | _ =>
    isPlainInteger cs
      && ((Numeral.readInt? (cs.filter (· != '_'))).bind Numeral.int64?).isSome

/-! ## Floating-point numbers -/

/-- The parts of a number with a fraction, an exponent or both: what stands before the
point, behind it, and behind the exponent's mark. -/
structure FloatParts where
  whole : List Char
  fraction : Option (List Char)
  exponent : Option (List Char)

/-- Take a text apart at its point and the mark of its exponent. -/
def FloatParts.ofText (cs : List Char) : FloatParts :=
  let isMark (c : Char) := c == 'e' || c == 'E'
  let mantissa := cs.takeWhile fun c => !isMark c
  { whole := mantissa.takeWhile (· != '.')
    fraction := (mantissa.dropWhile (· != '.')).tail?
    exponent := (cs.dropWhile fun c => !isMark c).tail? }

/-- Whether the parts have the form of a number that is no integer. -/
def FloatParts.isWellFormed (p : FloatParts) : Bool :=
  isPlainInteger p.whole && p.fraction.all (isDigitRun Char.isDigit)
    && p.exponent.all (fun e => isDigitRun Char.isDigit (dropSign e))
    && (p.fraction.isSome || p.exponent.isSome)

/-- The number that digits denote; anything else among them does not count. -/
def digitsValue (cs : List Char) : Nat :=
  (cs.filterMap Numeral.digit?).foldl (fun n d => 10 * n + d) 0

/-- The least magnitude that is rounded to infinity: the middle between the greatest
number with 53 binary digits and exponent 1023, and the next power of two. -/
def infinityBound : Nat := ((1 <<< 54) - 1) <<< 970

/-- Whether `n * 10 ^ e` is rounded to infinity.  The number of digits settles all but
the numbers close to the bound, so no large power is taken. -/
def isTooLarge (n : Nat) (e : Int) : Bool :=
  let digits : Int := (Numeral.renderNat n).length + e
  if n = 0 ∨ digits < 309 then false
  else if 309 < digits then true
  else infinityBound * Nat.pow 10 (-e).toNat ≤ n * Nat.pow 10 e.toNat

/-- Whether the parts denote a number that is rounded to positive infinity. -/
def FloatParts.overflows (p : FloatParts) : Bool :=
  let fraction := (p.fraction.getD []).filter Char.isDigit
  let exponent := p.exponent.getD []
  let power : Int := digitsValue exponent
  let shift : Int := if exponent.head? = some '-' then -power else power
  p.whole.head? != some '-'
    && isTooLarge (digitsValue (p.whole ++ fraction)) (shift - fraction.length)

/-- A number with a fraction, an exponent or both, or one of the special ones.  A number
that is not special is not infinite either, unless it is negative. -/
def isFloat (cs : List Char) : Bool :=
  let body := dropSign cs
  if body == ['i', 'n', 'f'] || body == ['n', 'a', 'n'] then true
  else
    let parts := FloatParts.ofText cs
    parts.isWellFormed && !parts.overflows

/-! ## Dates and times -/

/-- A number of exactly two digits. -/
def twoDigits? (a b : Char) : Option Nat := Numeral.readNat? [a, b]

/-- The number of days of a month. -/
def daysIn (year month : Nat) : Nat :=
  if month == 2 then
    if year % 4 == 0 && (year % 100 != 0 || year % 400 == 0) then 29 else 28
  else if [4, 6, 9, 11].contains month then 30
  else 31

/-- A date at the start of a text, and what follows it. -/
def dropDate? : List Char → Option (List Char)
  | y1 :: y2 :: y3 :: y4 :: '-' :: m1 :: m2 :: '-' :: d1 :: d2 :: rest => do
    let year ← Numeral.readNat? [y1, y2, y3, y4]
    let month ← twoDigits? m1 m2
    let day ← twoDigits? d1 d2
    if 1 ≤ month ∧ month ≤ 12 ∧ 1 ≤ day ∧ day ≤ daysIn year month then some rest else none
  | _ => none

/-- A time of day at the start of a text, and what follows it. -/
def dropTime? : List Char → Option (List Char)
  | h1 :: h2 :: ':' :: m1 :: m2 :: ':' :: s1 :: s2 :: rest => do
    let hour ← twoDigits? h1 h2
    let minute ← twoDigits? m1 m2
    let second ← twoDigits? s1 s2
    if hour < 24 ∧ minute < 60 ∧ second ≤ 60 then
      match rest with
      | '.' :: fraction =>
        if (fraction.head?.map Char.isDigit) == some true then
          some (fraction.dropWhile Char.isDigit)
        else none
      | rest => some rest
    else none
  | _ => none

/-- An offset from universal time, or nothing. -/
def isOffset : List Char → Bool
  | [] => true
  | ['Z'] | ['z'] => true
  | [sign, h1, h2, ':', m1, m2] =>
    (sign == '+' || sign == '-')
      && (match twoDigits? h1 h2, twoDigits? m1 m2 with
        | some hour, some minute => hour < 24 && minute < 60
        | _, _ => false)
  | _ => false

/-- A date, a time, or both with or without an offset. -/
def isDateTime (cs : List Char) : Bool :=
  match dropDate? cs with
  | some [] => true
  | some (sep :: time) =>
    (sep == 'T' || sep == 't' || sep == ' ')
      && (match dropTime? time with
        | some rest => isOffset rest
        | none => false)
  | none => dropTime? cs == some []

end DataTree.Toml
