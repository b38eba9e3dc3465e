import DataTree.Text.Category
import DataTree.Text.Property.Table

/-!
# DataTree.Text.Property

The yes-or-no properties of characters in edition 16.0 of Unicode.

Some of them are given by a list (`DataTree.Text.Property.Table`); the others follow
from the general category and those lists, as Unicode derives them:

    alphabetic = letters, letter numbers, lowercase, uppercase, further vowel signs
    idStart    = letters, letter numbers, a few more, without what patterns reserve
    xidStart   = idStart without characters whose normal form may not start a name

A character that a mapping of case changes has one of three properties, which differ
from `uppercase` and `lowercase` by the characters that lack the other form.
-/

namespace DataTree.Text

/-- The yes-or-no properties. -/
inductive Property
  | alphabetic | asciiHexDigit | bidiControl | bidiMirrored | caseIgnorable | cased
  | changesWhenCasefolded | changesWhenCasemapped | changesWhenLowercased
  | changesWhenTitlecased | changesWhenUppercased | dash | defaultIgnorable | deprecated
  | diacritic | emoji | emojiComponent | emojiModifier | emojiModifierBase
  | emojiPresentation | extendedPictographic | extender | graphemeBase | graphemeExtend
  | graphemeLink | hexDigit | hyphen | idCompatMathContinue | idCompatMathStart
  | idContinue | idStart | idsBinaryOperator | idsTrinaryOperator | idsUnaryOperator
  | ideographic | joinControl | logicalOrderException | lowercase | math
  | modifierCombiningMark | noncharacterCodePoint | otherAlphabetic | otherDefaultIgnorable
  | otherGraphemeExtend | otherIdContinue | otherIdStart | otherLowercase | otherMath
  | otherUppercase | patternSyntax | patternWhiteSpace | prependedConcatenationMark
  | quotationMark | radical | regionalIndicator | sentenceTerminal | softDotted
  | terminalPunctuation | unifiedIdeograph | uppercase | variationSelector | whiteSpace
  | xidContinue | xidStart
  deriving DecidableEq, Repr

namespace Property

/-! ## Derived sets -/

/-- The members of a list of the table. -/
def listed (places : List Nat) : CharSet := CharSet.ofChanges places

/-- Lower-case letters and what is used like them. -/
def lowercaseSet : CharSet := (Category.only .lowerLetter).union (listed Table.otherLowercase)

/-- Upper-case letters and what is used like them. -/
def uppercaseSet : CharSet := (Category.only .upperLetter).union (listed Table.otherUppercase)

/-- Letters, letter numbers, and what is used like letters. -/
def alphabeticSet : CharSet :=
  CharSet.unionAll [Category.set fun k => k.isLetter || k == .letterNumber,
    lowercaseSet, uppercaseSet, listed Table.otherAlphabetic]

/-- Marks without an advance, and a few other characters that join the one before. -/
def graphemeExtendSet : CharSet :=
  (Category.set fun k => k == .nonspacingMark || k == .enclosingMark).union
    (listed Table.otherExtenders)

/-- What patterns reserve for themselves. -/
def reservedSet : CharSet := (listed Table.patternSyntax).union (listed Table.patternBlank)

/-- What an identifier may start with. -/
def idStartSet : CharSet :=
  ((Category.set fun k => k.isLetter || k == .letterNumber).union
    (listed Table.otherIdStart)).diff reservedSet

/-- What may follow in an identifier. -/
def idContinueSet : CharSet :=
  (CharSet.unionAll [idStartSet, listed Table.otherIdContinue,
    Category.set fun k => k == .nonspacingMark || k == .spacingMark || k == .decimalNumber
      || k == .connectorPunctuation]).diff reservedSet

/-- Characters that are not shown unless they are supported. -/
def defaultIgnorableSet : CharSet :=
  (CharSet.unionAll [listed Table.otherIgnorable, Category.only .format,
    listed Table.variationSelector]).diff
      ((listed Table.shownFormat).union (listed Table.prependedMark))

/-- Characters with a different lower-case form. -/
def changesWhenLowercasedSet : CharSet :=
  (uppercaseSet.union (Category.only .titleLetter)).diff (listed Table.noLowerForm)

/-- Characters with a different upper-case form. -/
def changesWhenUppercasedSet : CharSet :=
  (lowercaseSet.diff (listed Table.noUpperForm)).union (listed Table.otherUpperForm)

/-- Characters with a different title-case form. -/
def changesWhenTitlecasedSet : CharSet :=
  (changesWhenUppercasedSet.diff (listed Table.noTitleForm)).union (listed Table.titleFormOnly)

/-- Characters that stand for themselves and take up room. -/
def graphemeBaseSet : CharSet :=
  (Category.set fun k => !(k.isOther || k == .lineSeparator || k == .paragraphSeparator)).diff
    graphemeExtendSet

/-- Characters that are passed over when the case of a letter depends on its
neighbours. -/
def caseIgnorableSet : CharSet :=
  CharSet.unionAll [listed Table.midLetter, listed Table.midNumLet, CharSet.single '\'',
    Category.set fun k => k == .nonspacingMark || k == .enclosingMark || k == .format
      || k == .modifierLetter || k == .modifierSymbol]

/-- What words consist of: alphabetic characters, marks, decimal digits, connector
punctuation such as the underscore, and the two controls of joining. -/
def wordSet : CharSet :=
  CharSet.unionAll [alphabeticSet, listed Table.joinControl,
    Category.set fun k => k.isMark || k == .decimalNumber || k == .connectorPunctuation]

/-! ## Sets by property -/

/-- The characters with a property. -/
def set : Property → CharSet
  | alphabetic => alphabeticSet
  | asciiHexDigit => listed Table.asciiHexDigit
  | bidiControl => listed Table.bidiControl
  | bidiMirrored => listed Table.bidiMirrored
  | caseIgnorable => caseIgnorableSet
  | cased => CharSet.unionAll [lowercaseSet, uppercaseSet, Category.only .titleLetter]
  | changesWhenCasefolded =>
    (changesWhenLowercasedSet.diff (listed Table.foldsUp)).union (listed Table.foldsOnly)
  | changesWhenCasemapped =>
    CharSet.unionAll
      [changesWhenLowercasedSet, changesWhenUppercasedSet, changesWhenTitlecasedSet]
  | changesWhenLowercased => changesWhenLowercasedSet
  | changesWhenTitlecased => changesWhenTitlecasedSet
  | changesWhenUppercased => changesWhenUppercasedSet
  | dash => (Category.only .dashPunctuation).union (listed Table.otherDash)
  | defaultIgnorable => defaultIgnorableSet
  | deprecated => listed Table.deprecated
  | diacritic => listed Table.diacritic
  | emoji => listed Table.emoji
  | emojiComponent => listed Table.emojiComponent
  | emojiModifier => listed Table.emojiModifier
  | emojiModifierBase => listed Table.emojiModifierBase
  | emojiPresentation => listed Table.emojiPresentation
  | extendedPictographic => listed Table.extendedPictographic
  | extender => listed Table.extender
  | graphemeBase => graphemeBaseSet
  | graphemeExtend => graphemeExtendSet
  | graphemeLink => listed Table.graphemeLink
  | hexDigit => listed Table.hexDigit
  | hyphen => listed Table.hyphen
  | idCompatMathContinue => listed Table.idCompatMathContinue
  | idCompatMathStart => listed Table.idCompatMathStart
  | idContinue => idContinueSet
  | idStart => idStartSet
  | idsBinaryOperator => listed Table.idsBinaryOperator
  | idsTrinaryOperator => listed Table.idsTrinaryOperator
  | idsUnaryOperator => listed Table.idsUnaryOperator
  | ideographic => listed Table.ideographic
  | joinControl => listed Table.joinControl
  | logicalOrderException => listed Table.logicalOrderException
  | lowercase => lowercaseSet
  | math => (Category.only .mathSymbol).union (listed Table.otherMath)
  | modifierCombiningMark => listed Table.modifierCombiningMark
  | noncharacterCodePoint => listed Table.noncharacterCodePoint
  | otherAlphabetic => listed Table.otherAlphabetic
  | otherDefaultIgnorable => listed Table.otherIgnorable
  | otherGraphemeExtend => listed Table.otherExtenders
  | otherIdContinue => listed Table.otherIdContinue
  | otherIdStart => listed Table.otherIdStart
  | otherLowercase => listed Table.otherLowercase
  | otherMath => listed Table.otherMath
  | otherUppercase => listed Table.otherUppercase
  | patternSyntax => listed Table.patternSyntax
  | patternWhiteSpace => listed Table.patternBlank
  | prependedConcatenationMark => listed Table.prependedMark
  | quotationMark => listed Table.quotationMark
  | radical => listed Table.radical
  | regionalIndicator => listed Table.regionalIndicator
  | sentenceTerminal => listed Table.sentenceTerminal
  | softDotted => listed Table.softDotted
  | terminalPunctuation => listed Table.terminalPunctuation
  | unifiedIdeograph => listed Table.unifiedIdeograph
  | uppercase => uppercaseSet
  | variationSelector => listed Table.variationSelector
  | whiteSpace => listed Table.whiteSpace
  | xidContinue => idContinueSet.diff (listed Table.continueNotNormal)
  | xidStart => idStartSet.diff (listed Table.startNotNormal)

/-! ## Names -/

/-- The long and the short names of each property, without separators and in lower
case. -/
def names : List (List String × Property) := [
  (["alphabetic", "alpha"], alphabetic), (["asciihexdigit", "ahex"], asciiHexDigit),
  (["bidicontrol", "bidic"], bidiControl), (["bidimirrored", "bidim"], bidiMirrored),
  (["caseignorable", "ci"], caseIgnorable), (["cased"], cased),
  (["changeswhencasefolded", "cwcf"], changesWhenCasefolded),
  (["changeswhencasemapped", "cwcm"], changesWhenCasemapped),
  (["changeswhenlowercased", "cwl"], changesWhenLowercased),
  (["changeswhentitlecased", "cwt"], changesWhenTitlecased),
  (["changeswhenuppercased", "cwu"], changesWhenUppercased), (["dash"], dash),
  (["defaultignorablecodepoint", "di"], defaultIgnorable), (["deprecated", "dep"], deprecated),
  (["diacritic", "dia"], diacritic), (["emoji"], emoji),
  (["emojicomponent", "ecomp"], emojiComponent), (["emojimodifier", "emod"], emojiModifier),
  (["emojimodifierbase", "ebase"], emojiModifierBase),
  (["emojipresentation", "epres"], emojiPresentation),
  (["extendedpictographic", "extpict"], extendedPictographic), (["extender", "ext"], extender),
  (["graphemebase", "grbase"], graphemeBase), (["graphemeextend", "grext"], graphemeExtend),
  (["graphemelink", "grlink"], graphemeLink), (["hexdigit", "hex"], hexDigit),
  (["hyphen"], hyphen), (["idcompatmathcontinue"], idCompatMathContinue),
  (["idcompatmathstart"], idCompatMathStart), (["idcontinue", "idc"], idContinue),
  (["idstart", "ids"], idStart), (["idsbinaryoperator", "idsb"], idsBinaryOperator),
  (["idstrinaryoperator", "idst"], idsTrinaryOperator),
  (["idsunaryoperator", "idsu"], idsUnaryOperator), (["ideographic", "ideo"], ideographic),
  (["joincontrol", "joinc"], joinControl),
  (["logicalorderexception", "loe"], logicalOrderException), (["lowercase", "lower"], lowercase),
  (["math"], math), (["modifiercombiningmark", "mcm"], modifierCombiningMark),
  (["noncharactercodepoint", "nchar"], noncharacterCodePoint),
  (["otheralphabetic", "oalpha"], otherAlphabetic),
  (["otherdefaultignorablecodepoint", "odi"], otherDefaultIgnorable),
  (["othergraphemeextend", "ogrext"], otherGraphemeExtend),
  (["otheridcontinue", "oidc"], otherIdContinue), (["otheridstart", "oids"], otherIdStart),
  (["otherlowercase", "olower"], otherLowercase), (["othermath", "omath"], otherMath),
  (["otheruppercase", "oupper"], otherUppercase), (["patternsyntax", "patsyn"], patternSyntax),
  (["patternwhitespace", "patws"], patternWhiteSpace),
  (["prependedconcatenationmark", "pcm"], prependedConcatenationMark),
  (["quotationmark", "qmark"], quotationMark), (["radical"], radical),
  (["regionalindicator", "ri"], regionalIndicator),
  (["sentenceterminal", "sterm"], sentenceTerminal), (["softdotted", "sd"], softDotted),
  (["terminalpunctuation", "term"], terminalPunctuation),
  (["unifiedideograph", "uideo"], unifiedIdeograph), (["uppercase", "upper"], uppercase),
  (["variationselector", "vs"], variationSelector),
  (["whitespace", "space", "wspace"], whiteSpace), (["xidcontinue", "xidc"], xidContinue),
  (["xidstart", "xids"], xidStart)]

/-- A property by one of its names. -/
def named? (name : String) : Option Property :=
  (names.find? fun (spellings, _) => spellings.contains name).map Prod.snd

end Property

end DataTree.Text
