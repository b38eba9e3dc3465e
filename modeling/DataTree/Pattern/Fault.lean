/-!
# DataTree.Pattern.Fault

What can be wrong with the text of a pattern.
-/

namespace DataTree.Pattern

/-- A reason why a text is no pattern. -/
inductive Fault
  | unclosedGroup
  | unopenedGroup
  | nothingToRepeat
  | badCount
  | lookAround
  | badGroupName
  | repeatedGroupName
  | badFlags
  | unclosedClass
  | badClassItem
  | badClassRange
  | unfinishedEscape
  | unknownEscape
  | backReference
  | badCodePoint
  | unknownProperty
  | badWordEdge
  | notAscii
  | tooDeep
  | tooLarge
  deriving DecidableEq, Repr

/-- The reason in words. -/
def Fault.message : Fault → String
  | unclosedGroup => "unclosed group"
  | unopenedGroup => "unopened group"
  | nothingToRepeat => "repetition operator missing expression"
  | badCount => "invalid repetition count"
  | lookAround => "look-around is not supported"
  | badGroupName => "invalid capture group name"
  | repeatedGroupName => "duplicate capture group name"
  | badFlags => "invalid flags"
  | unclosedClass => "unclosed character class"
  | badClassItem => "invalid item in character class"
  | badClassRange => "invalid character class range"
  | unfinishedEscape => "incomplete escape sequence"
  | unknownEscape => "unrecognized escape sequence"
  | backReference => "backreferences are not supported"
  | badCodePoint => "invalid code point"
  | unknownProperty => "Unicode property not found"
  | badWordEdge => "invalid word boundary assertion"
  | notAscii => "characters beyond ASCII are not allowed here"
  | tooDeep => "nested too deeply"
  | tooLarge => "too large"

end DataTree.Pattern
