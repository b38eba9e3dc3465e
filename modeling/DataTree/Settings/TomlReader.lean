import DataTree.Settings.Toml
import DataTree.Settings.TomlNumber

/-!
# DataTree.Settings.TomlReader

Reading TOML.

    document = { line , newline }
    line     = [ header | key , "=" , value ] , [ comment ]
    header   = "[" , key , "]" | "[[" , key , "]]"
    key      = part , { "." , part }

A part of a key is a word of letters, digits, hyphens and underscores, or a string
on one line.  Values are strings in four forms, truth values, numbers, dates,
arrays, and tables in braces.  No key has more than 79 parts, and arrays and tables in
braces are not nested deeper than that.
-/

namespace DataTree.Toml

/-! ## Blanks and comments -/

def isBlank (c : Char) : Bool := c == ' ' || c == '\t'

/-- Control characters that may not occur anywhere. -/
def isControl (c : Char) : Bool := (c.toNat < 32 && c != '\t') || c.toNat == 127

def skipBlanks (cs : List Char) : List Char := cs.dropWhile isBlank

/-- What follows a comment whose sign was read: the end of the line or the text. -/
def dropComment? : List Char → Option (List Char)
  | [] => some []
  | '\n' :: cs => some ('\n' :: cs)
  | '\r' :: '\n' :: cs => some ('\n' :: cs)
  | c :: cs => if isControl c then none else dropComment? cs

/-- Blanks and perhaps a comment up to the end of the line, which is taken too. -/
def endLine? (cs : List Char) : Option (List Char) :=
  let rest := match skipBlanks cs with
    | '#' :: cs => dropComment? cs
    | cs => some cs
  match rest with
  | some [] => some []
  | some ('\n' :: cs) => some cs
  | some ('\r' :: '\n' :: cs) => some cs
  | _ => none

/-- Blanks, comments and ends of lines, as they may stand within an array. -/
def skipLines? : (inComment : Bool) → List Char → Option (List Char)
  | _, [] => some []
  | _, '\n' :: cs => skipLines? false cs
  | _, '\r' :: '\n' :: cs => skipLines? false cs
  | true, c :: cs => if isControl c then none else skipLines? true cs
  | false, c :: cs =>
    if isBlank c then skipLines? false cs
    else if c = '#' then skipLines? true cs
    else some (c :: cs)

/-! ## Strings -/

/-- Put a character in front of a text that was read. -/
def consText (c : Char) (r : List Char × List Char) : List Char × List Char := (c :: r.1, r.2)

/-- The character with a code point in hexadecimal. -/
def charOfHex? (digits : List Char) : Option Char := do
  let code ← digits.foldlM (fun n c => (hexDigit? c).map (16 * n + ·)) 0
  if code < 0xD800 ∨ (0xDFFF < code ∧ code ≤ 0x10FFFF) then some (Char.ofNat code) else none

/-- The character that a single letter behind a backslash stands for. -/
def escaped? : Char → Option Char
  | 'b' => some '\x08'
  | 't' => some '\t'
  | 'n' => some '\n'
  | 'f' => some '\x0c'
  | 'r' => some '\r'
  | '"' => some '"'
  | '\\' => some '\\'
  | _ => none

/-- A string in double quotes, behind the first one. -/
def readBasic? : List Char → Option (List Char × List Char)
  | [] => none
  | '"' :: cs => some ([], cs)
  | '\\' :: 'u' :: a :: b :: c :: d :: cs => do
    return consText (← charOfHex? [a, b, c, d]) (← readBasic? cs)
  | '\\' :: 'U' :: a :: b :: c :: d :: e :: f :: g :: h :: cs => do
    return consText (← charOfHex? [a, b, c, d, e, f, g, h]) (← readBasic? cs)
  | '\\' :: c :: cs => do return consText (← escaped? c) (← readBasic? cs)
  | c :: cs => if isControl c then none else (readBasic? cs).map (consText c)

/-- A string in single quotes, behind the first one. -/
def readLiteral? : List Char → Option (List Char × List Char)
  | [] => none
  | '\'' :: cs => some ([], cs)
  | c :: cs => if isControl c then none else (readLiteral? cs).map (consText c)

/-- Where a string of several lines stands. -/
inductive Fold
  | text
  /-- Behind a backslash at the end of a line, still on that line. -/
  | beforeBreak
  /-- Behind that line, where blanks and further breaks are dropped. -/
  | afterBreak
  deriving DecidableEq

/-- A string in three double quotes, behind the first line break. -/
def readLongBasic? : Fold → List Char → Option (List Char × List Char)
  | _, [] => none
  | .beforeBreak, '\n' :: cs => readLongBasic? .afterBreak cs
  | .beforeBreak, '\r' :: '\n' :: cs => readLongBasic? .afterBreak cs
  | .beforeBreak, c :: cs => if isBlank c then readLongBasic? .beforeBreak cs else none
  | .afterBreak, '\n' :: cs => readLongBasic? .afterBreak cs
  | .afterBreak, '\r' :: '\n' :: cs => readLongBasic? .afterBreak cs
  | .afterBreak, ' ' :: cs => readLongBasic? .afterBreak cs
  | .afterBreak, '\t' :: cs => readLongBasic? .afterBreak cs
  | _, '"' :: '"' :: '"' :: '"' :: '"' :: cs => some (['"', '"'], cs)
  | _, '"' :: '"' :: '"' :: '"' :: cs => some (['"'], cs)
  | _, '"' :: '"' :: '"' :: cs => some ([], cs)
  | _, '\r' :: '\n' :: cs => (readLongBasic? .text cs).map (consText '\n')
  | _, '\n' :: cs => (readLongBasic? .text cs).map (consText '\n')
  | _, '\\' :: 'u' :: a :: b :: c :: d :: cs => do
    return consText (← charOfHex? [a, b, c, d]) (← readLongBasic? .text cs)
  | _, '\\' :: 'U' :: a :: b :: c :: d :: e :: f :: g :: h :: cs => do
    return consText (← charOfHex? [a, b, c, d, e, f, g, h]) (← readLongBasic? .text cs)
  | _, '\\' :: '\n' :: cs => readLongBasic? .afterBreak cs
  | _, '\\' :: '\r' :: '\n' :: cs => readLongBasic? .afterBreak cs
  | _, '\\' :: c :: cs =>
    if isBlank c then readLongBasic? .beforeBreak cs
    else do return consText (← escaped? c) (← readLongBasic? .text cs)
  | _, c :: cs => if isControl c then none else (readLongBasic? .text cs).map (consText c)

/-- A string in three single quotes, behind the first line break. -/
def readLongLiteral? : List Char → Option (List Char × List Char)
  | [] => none
  | '\'' :: '\'' :: '\'' :: '\'' :: '\'' :: cs => some (['\'', '\''], cs)
  | '\'' :: '\'' :: '\'' :: '\'' :: cs => some (['\''], cs)
  | '\'' :: '\'' :: '\'' :: cs => some ([], cs)
  | '\r' :: '\n' :: cs => (readLongLiteral? cs).map (consText '\n')
  | '\n' :: cs => (readLongLiteral? cs).map (consText '\n')
  | c :: cs => if isControl c then none else (readLongLiteral? cs).map (consText c)

/-- A line break right behind the opening quotes does not count. -/
def dropBreak : List Char → List Char
  | '\n' :: cs => cs
  | '\r' :: '\n' :: cs => cs
  | cs => cs

/-- A string in any of its forms. -/
def readString? : List Char → Option (String × List Char)
  | '"' :: '"' :: '"' :: cs => (readLongBasic? .text (dropBreak cs)).map fun (s, rest) =>
      (String.ofList s, rest)
  | '\'' :: '\'' :: '\'' :: cs => (readLongLiteral? (dropBreak cs)).map fun (s, rest) =>
      (String.ofList s, rest)
  | '"' :: cs => (readBasic? cs).map fun (s, rest) => (String.ofList s, rest)
  | '\'' :: cs => (readLiteral? cs).map fun (s, rest) => (String.ofList s, rest)
  | _ => none

/-! ## Keys -/

def isKeyChar (c : Char) : Bool := c.isAlphanum || c == '-' || c == '_'

/-- One part of a key. -/
def readKeyPart? (cs : List Char) : Option (String × List Char) :=
  match cs with
  | '"' :: cs => (readBasic? cs).map fun (s, rest) => (String.ofList s, rest)
  | '\'' :: cs => (readLiteral? cs).map fun (s, rest) => (String.ofList s, rest)
  | cs =>
    let word := cs.takeWhile isKeyChar
    if word.isEmpty then none else some (String.ofList word, cs.dropWhile isKeyChar)

/-- The greatest number of parts of a key, and the greatest depth of a value. -/
def depthLimit : Nat := 79

/-- A dotted key, with the blanks around it; `fuel` bounds the number of parts. -/
def readKey? : (fuel : Nat) → List Char → Option (List String × List Char)
  | 0, _ => none
  | fuel + 1, cs => do
    let (part, rest) ← readKeyPart? (skipBlanks cs)
    match skipBlanks rest with
    | '.' :: rest => do
      let (parts, rest) ← readKey? fuel rest
      return (part :: parts, rest)
    | rest => return ([part], rest)

/-! ## Words -/

/-- The characters of numbers, dates and bare words. -/
def isBareChar (c : Char) : Bool :=
  c.isAlphanum || c == '+' || c == '-' || c == '.' || c == '_' || c == ':'

/-- A value without quotes or brackets. -/
def readBare? (cs : List Char) : Option (Item × List Char) :=
  let word := cs.takeWhile isBareChar
  let rest := cs.dropWhile isBareChar
  if word == ['t', 'r', 'u', 'e'] then some (.bool true, rest)
  else if word == ['f', 'a', 'l', 's', 'e'] then some (.bool false, rest)
  else
    let time := match rest with
      | ' ' :: rest => rest.takeWhile isBareChar
      | _ => []
    if (dropDate? word) == some [] && (dropTime? (time.take 8)).isSome then
      if isDateTime (word ++ ' ' :: time) then some (.number, rest.drop (time.length + 1))
      else none
    else if isInteger word || isFloat word || isDateTime word then some (.number, rest)
    else none

/-! ## Values -/

mutual

/-- A value.  `room` is the depth to which arrays and tables may still be nested, `fuel`
bounds the number of parts. -/
def readValue? : (fuel room : Nat) → List Char → Option (Item × List Char)
  | 0, _, _ => none
  | fuel + 1, room, cs =>
    match cs, room with
    | '[' :: _, 0 => none
    | '\x7b' :: _, 0 => none
    | '[' :: rest, room + 1 => do
      let (items, rest) ← readItems? fuel room (← skipLines? false rest)
      return (.array items, rest)
    | '\x7b' :: rest, room + 1 =>
      match skipBlanks rest with
      | '\x7d' :: rest => some (.table .braces [], rest)
      | rest => do
        let (entries, rest) ← readFields? fuel room [] rest
        return (.table .braces entries, rest)
    | cs, _ =>
      if cs.head? = some '"' ∨ cs.head? = some '\'' then
        (readString? cs).map fun (s, rest) => (.text s, rest)
      else readBare? cs

/-- The items of an array up to its closing bracket. -/
def readItems? : (fuel room : Nat) → List Char → Option (List Item × List Char)
  | 0, _, _ => none
  | _ + 1, _, ']' :: rest => some ([], rest)
  | fuel + 1, room, cs => do
    let (item, rest) ← readValue? fuel room cs
    match ← skipLines? false rest with
    | ',' :: rest => do
      let (items, rest) ← readItems? fuel room (← skipLines? false rest)
      return (item :: items, rest)
    | ']' :: rest => return ([item], rest)
    | _ => none

/-- The entries of a table in braces up to its closing brace. -/
def readFields? : (fuel room : Nat) → Entries → List Char → Option (Entries × List Char)
  | 0, _, _, _ => none
  | fuel + 1, room, entries, cs => do
    let (keys, rest) ← readKey? depthLimit cs
    match rest with
    | '=' :: rest => do
      let (item, rest) ← readValue? fuel room (skipBlanks rest)
      let entries ← enterDotted? item keys entries
      match skipBlanks rest with
      | ',' :: rest => readFields? fuel room entries rest
      | '\x7d' :: rest => return (entries, rest)
      | _ => none
    | _ => none

end

/-! ## Documents -/

/-- The lines of a document: `header` is the table that keys belong to. -/
def readLines? : (fuel : Nat) → (header : List String) → Entries → List Char → Option Entries
  | 0, _, _, _ => none
  | fuel + 1, header, entries, cs =>
    match skipBlanks cs with
    | [] => some entries
    | '[' :: '[' :: rest => do
      let (path, rest) ← readKey? depthLimit rest
      match rest with
      | ']' :: ']' :: rest => readLines? fuel path (← openOneMore? path entries) (← endLine? rest)
      | _ => none
    | '[' :: rest => do
      let (path, rest) ← readKey? depthLimit rest
      match rest with
      | ']' :: rest => readLines? fuel path (← openTable? path entries) (← endLine? rest)
      | _ => none
    | c :: rest =>
      if c = '\n' ∨ c = '\r' ∨ c = '#' then do
        readLines? fuel header entries (← endLine? (c :: rest))
      else do
        let (keys, rest) ← readKey? depthLimit (c :: rest)
        match rest with
        | '=' :: rest => do
          let (item, rest) ← readValue? (rest.length + 1) depthLimit (skipBlanks rest)
          let entries ← enterUnder? header keys item entries
          readLines? fuel header entries (← endLine? rest)
        | _ => none

/-- The table that a document describes; a byte order mark at its start does not
count. -/
def read? (cs : List Char) : Option Entries :=
  let cs := match cs with
    | '\ufeff' :: cs => cs
    | cs => cs
  readLines? (cs.length + 1) [] [] cs

end DataTree.Toml
