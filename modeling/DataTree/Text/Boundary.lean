import DataTree.Text.Boundary.Table
import DataTree.Text.Property
import DataTree.Text.Script

/-!
# DataTree.Text.Boundary

What characters do at the boundaries of clusters, words and sentences.

Each of three properties (edition 16.0 of Unicode) gives a character one value.  The
characters with one of the values listed here are a set; those with none of them, the
rest, cannot be named.
-/

namespace DataTree.Text

/-- What is used for finding the boundaries between clusters of characters. -/
inductive ClusterBreak
  | control | cr | extend | l | lf | lv | lvt | prepend | regionalIndicator | spacingMark | t | v
  | zwj
  deriving DecidableEq, Repr

/-- What is used for finding the boundaries between words. -/
inductive WordBreak
  | aLetter | cr | doubleQuote | extend | extendNumLet | format | hebrewLetter | katakana | lf
  | midLetter | midNum | midNumLet | newline | numeric | regionalIndicator | singleQuote
  | wSegSpace | zwj
  deriving DecidableEq, Repr

/-- What is used for finding the boundaries between sentences. -/
inductive SentenceBreak
  | aTerm | close | cr | extend | format | lf | lower | numeric | oLetter | sContinue | sTerm
  | sep | sp | upper
  deriving DecidableEq, Repr

namespace Boundary

/-- The members of a list of the table. -/
def listed (places : List Nat) : CharSet := CharSet.ofChanges places

/-- The joiner of zero width. -/
def joiner : CharSet := CharSet.codes 0x200D 0x200D

/-- What clings to the character before it, skin tones included. -/
def attached : CharSet :=
  Property.graphemeExtendSet.union Property.emojiModifier.set

/-- Syllables of Hangul without a final consonant: every twenty-eighth one. -/
def openSyllables : CharSet :=
  listed ((List.range 399).flatMap fun i => [0xAC00 + 28 * i, 0xAC01 + 28 * i])

/-- Spacing marks of words: what clings to the character before it. -/
def wordExtend : CharSet := attached.union (Category.only .spacingMark)

/-- Spacing marks and joiners within sentences. -/
def sentenceExtend : CharSet :=
  CharSet.unionAll [Property.graphemeExtendSet, Category.only .spacingMark, joiner]

/-- Letters of Hebrew. -/
def hebrewLetters : CharSet := (Script.setNamed "hebrew").inter (Category.only .otherLetter)

/-- Digits, and the signs and format characters that belong to numbers. -/
def wordNumeric : CharSet := (Category.only .decimalNumber).union (listed Table.numberFormat)

/-- Small letters within sentences. -/
def sentenceLower : CharSet :=
  Property.lowercaseSet.diff
    (Property.graphemeExtendSet.union (listed Table.georgianSmall))

/-- Capitals within sentences. -/
def sentenceUpper : CharSet :=
  (Property.uppercaseSet.union (Category.only .titleLetter)).diff (listed Table.georgianCapital)

/-- Ends of sentences that are not used within words and numbers. -/
def sentenceTerm : CharSet := Property.sentenceTerminal.set.diff (listed Table.fullStop)

end Boundary

open Boundary

namespace ClusterBreak

/-- The characters with a value. -/
def set : ClusterBreak → CharSet
  | control =>
    ((Category.set fun k => k == .lineSeparator || k == .paragraphSeparator || k == .control
      || k == .format).union
        ((Category.only .unassigned).inter Property.defaultIgnorableSet)).diff
      (CharSet.unionAll [CharSet.single '\r', CharSet.single '\n', joiner,
        Property.graphemeExtendSet, Property.prependedConcatenationMark.set])
  | cr => CharSet.single '\r'
  | extend => attached
  | l => listed Table.leadingJamo
  | lf => CharSet.single '\n'
  | lv => openSyllables
  | lvt => (CharSet.codes 0xAC00 0xD7A3).diff openSyllables
  | prepend =>
    Property.prependedConcatenationMark.set.union (listed Table.prependedLetter)
  | regionalIndicator => Property.regionalIndicator.set
  | spacingMark =>
    (CharSet.unionAll [Category.only .spacingMark, CharSet.codes 0xE33 0xE33,
      CharSet.codes 0xEB3 0xEB3]).diff (attached.union (listed Table.detachedMark))
  | t => listed Table.trailingJamo
  | v => listed Table.vowelJamo
  | zwj => joiner

/-- A value by one of its names. -/
def named? : String → Option ClusterBreak
  | "control" | "cn" => some control
  | "cr" => some cr
  | "extend" | "ex" => some extend
  | "l" => some l
  | "lf" => some lf
  | "lv" => some lv
  | "lvt" => some lvt
  | "prepend" | "pp" => some prepend
  | "regionalindicator" | "ri" => some regionalIndicator
  | "spacingmark" | "sm" => some spacingMark
  | "t" => some t
  | "v" => some v
  | "zwj" => some zwj
  | _ => none

end ClusterBreak

namespace WordBreak

/-- The characters with a value. -/
def set : WordBreak → CharSet
  | aLetter =>
    (Property.alphabeticSet.diff
      (CharSet.unionAll [Property.ideographic.set, listed Table.katakanaWord,
        Script.setNamed "hiragana", wordExtend, hebrewLetters,
        listed Table.complexLetter])).union (listed Table.letterSign)
  | cr => CharSet.single '\r'
  | doubleQuote => CharSet.single '"'
  | extend => wordExtend
  | extendNumLet => listed Table.extendNumLet
  | format =>
    (Category.only .format).diff
      (CharSet.unionAll [Property.prependedConcatenationMark.set, Property.graphemeExtendSet,
        CharSet.codes 0x200B 0x200B, joiner])
  | hebrewLetter => hebrewLetters
  | katakana => listed Table.katakanaWord
  | lf => CharSet.single '\n'
  | midLetter => listed Property.Table.midLetter
  | midNum => listed Table.midNum
  | midNumLet => listed Property.Table.midNumLet
  | newline => listed Table.newline
  | numeric => wordNumeric
  | regionalIndicator => Property.regionalIndicator.set
  | singleQuote => CharSet.single '\''
  | wSegSpace => listed Table.wordSpace
  | zwj => joiner

/-- A value by one of its names. -/
def named? : String → Option WordBreak
  | "aletter" | "le" => some aLetter
  | "cr" => some cr
  | "doublequote" | "dq" => some doubleQuote
  | "extend" => some extend
  | "extendnumlet" | "ex" => some extendNumLet
  | "format" | "fo" => some format
  | "hebrewletter" | "hl" => some hebrewLetter
  | "katakana" | "ka" => some katakana
  | "lf" => some lf
  | "midletter" | "ml" => some midLetter
  | "midnum" | "mn" => some midNum
  | "midnumlet" | "mb" => some midNumLet
  | "newline" | "nl" => some newline
  | "numeric" | "nu" => some numeric
  | "regionalindicator" | "ri" => some regionalIndicator
  | "singlequote" | "sq" => some singleQuote
  | "wsegspace" => some wSegSpace
  | "zwj" => some zwj
  | _ => none

end WordBreak

namespace SentenceBreak

/-- The characters with a value. -/
def set : SentenceBreak → CharSet
  | aTerm => listed Table.fullStop
  | close =>
    ((CharSet.unionAll [Property.quotationMark.set,
      Category.set fun k => k == .openPunctuation || k == .closePunctuation
        || k == .initialPunctuation || k == .finalPunctuation]).diff
      (CharSet.unionAll [listed Table.fullStop, sentenceTerm,
        listed Table.fullWidthQuote])).union (listed Table.ornamentalQuote)
  | cr => CharSet.single '\r'
  | extend => sentenceExtend
  | format =>
    (Category.only .format).diff
      (CharSet.unionAll [listed Table.numberFormat, Property.graphemeExtendSet, joiner])
  | lf => CharSet.single '\n'
  | lower => sentenceLower
  | numeric => wordNumeric.union (CharSet.codes 0x66C 0x66C)
  | oLetter =>
    (Property.alphabeticSet.union (CharSet.codes 0x5F3 0x5F3)).diff
      (CharSet.unionAll [sentenceLower, sentenceUpper, sentenceExtend])
  | sContinue => listed Table.sentenceContinue
  | sTerm => sentenceTerm
  | sep => listed Table.separator
  | sp => listed Table.sentenceSpace
  | upper => sentenceUpper

/-- A value by one of its names. -/
def named? : String → Option SentenceBreak
  | "aterm" | "at" => some aTerm
  | "close" | "cl" => some close
  | "cr" => some cr
  | "extend" | "ex" => some extend
  | "format" | "fo" => some format
  | "lf" => some lf
  | "lower" | "lo" => some lower
  | "numeric" | "nu" => some numeric
  | "oletter" | "le" => some oLetter
  | "scontinue" | "sc" => some sContinue
  | "sterm" | "st" => some sTerm
  | "sep" | "se" => some sep
  | "sp" => some sp
  | "upper" | "up" => some upper
  | _ => none

end SentenceBreak

end DataTree.Text
