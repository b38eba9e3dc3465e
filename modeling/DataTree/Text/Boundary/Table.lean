/-!
# DataTree.Text.Boundary.Table

Lists of characters that Unicode (edition 16.0) gives for finding the boundaries of
clusters, words and sentences.  A list has the places where membership changes, as in
`CharSet`.
-/

namespace DataTree.Text.Boundary.Table

/-- Letters and vowel signs that are put before what follows. -/
def prependedLetter : List Nat := [
  3406, 3407, 70082, 70084, 70609, 70610, 71999, 72000, 72001, 72002, 72250, 72251, 72324, 72330,
  73030, 73031, 73474, 73475]

/-- Spacing marks that do not belong to the character before them. -/
def detachedMark : List Nat := [
  4139, 4141, 4152, 4153, 4194, 4197, 4199, 4206, 4227, 4228, 4231, 4237, 4239, 4240, 4250, 4253,
  6753, 6754, 6755, 6757, 43643, 43644, 43645, 43646, 71456, 71458]

/-- Consonants that start a syllable. -/
def leadingJamo : List Nat := [
  4352, 4448, 43360, 43389]

/-- Vowels of syllables. -/
def vowelJamo : List Nat := [
  4448, 4520, 55216, 55239, 93539, 93540, 93543, 93547]

/-- Consonants that end a syllable. -/
def trailingJamo : List Nat := [
  4520, 4608, 55243, 55292]

/-- Connectors of words and numbers. -/
def extendNumLet : List Nat := [
  95, 96, 8239, 8240, 8255, 8257, 8276, 8277, 65075, 65077, 65101, 65104, 65343, 65344]

/-- Characters of words in Katakana. -/
def katakanaWord : List Nat := [
  12337, 12342, 12443, 12445, 12448, 12539, 12540, 12544, 12784, 12800, 13008, 13055, 13056,
  13144, 65382, 65438, 110576, 110580, 110581, 110588, 110589, 110591, 110592, 110593, 110880,
  110883, 110933, 110934, 110948, 110952]

/-- Characters that join digits. -/
def midNum : List Nat := [
  44, 45, 59, 60, 894, 895, 1417, 1418, 1548, 1550, 1644, 1645, 2040, 2041, 8260, 8261, 65104,
  65105, 65108, 65109, 65292, 65293, 65307, 65308]

/-- Line breaks other than the line feed and the return. -/
def newline : List Nat := [
  11, 13, 133, 134, 8232, 8234]

/-- Spaces of fixed width that separate words. -/
def wordSpace : List Nat := [
  32, 33, 5760, 5761, 8192, 8199, 8200, 8203, 8287, 8288, 12288, 12289]

/-- Signs and format characters that belong to numbers. -/
def numberFormat : List Nat := [
  1536, 1542, 1643, 1644, 1757, 1758, 2192, 2194, 2274, 2275, 6618, 6619, 69821, 69822, 69837,
  69838]

/-- Letters of scripts that do not separate words. -/
def complexLetter : List Nat := [
  3585, 3633, 3634, 3636, 3648, 3655, 3713, 3715, 3716, 3717, 3718, 3723, 3724, 3748, 3749, 3750,
  3751, 3761, 3762, 3764, 3773, 3774, 3776, 3781, 3782, 3783, 3804, 3808, 4096, 4139, 4159, 4160,
  4176, 4182, 4186, 4190, 4193, 4194, 4197, 4199, 4206, 4209, 4213, 4226, 4238, 4239, 6016, 6068,
  6103, 6104, 6108, 6109, 6480, 6510, 6512, 6517, 6528, 6572, 6576, 6602, 6688, 6741, 6823, 6824,
  43488, 43493, 43494, 43504, 43514, 43519, 43616, 43639, 43642, 43643, 43646, 43696, 43697,
  43698, 43701, 43703, 43705, 43710, 43712, 43713, 43714, 43715, 43739, 43742, 71424, 71451,
  71488, 71495]

/-- Signs that count as letters of words. -/
def letterSign : List Nat := [
  706, 710, 722, 728, 734, 736, 741, 748, 749, 750, 751, 768, 1370, 1373, 1374, 1375, 1418, 1419,
  1523, 1524, 1807, 1808, 42760, 42775, 42784, 42786, 42889, 42891, 43867, 43868]

/-- Ends of sentences that are also used within words and numbers. -/
def fullStop : List Nat := [
  46, 47, 8228, 8229, 65106, 65107, 65294, 65295]

/-- Marks within sentences. -/
def sentenceContinue : List Nat := [
  44, 46, 58, 60, 894, 895, 1373, 1374, 1548, 1550, 2040, 2041, 6146, 6147, 6152, 6153, 8211,
  8213, 12289, 12290, 65040, 65042, 65043, 65045, 65073, 65075, 65104, 65106, 65108, 65110, 65112,
  65113, 65123, 65124, 65292, 65294, 65306, 65308, 65380, 65381]

/-- Paragraph and line separators. -/
def separator : List Nat := [
  133, 134, 8232, 8234]

/-- Spaces between sentences. -/
def sentenceSpace : List Nat := [
  9, 10, 11, 13, 32, 33, 160, 161, 5760, 5761, 8192, 8203, 8239, 8240, 8287, 8288, 12288, 12289]

/-- Small letters of Georgian. -/
def georgianSmall : List Nat := [
  4304, 4347, 4349, 4352]

/-- Capitals of Georgian. -/
def georgianCapital : List Nat := [
  7312, 7355, 7357, 7360]

/-- Full-width quotation marks. -/
def fullWidthQuote : List Nat := [
  65282, 65283, 65287, 65288]

/-- Ornamental quotation marks and editorial brackets. -/
def ornamentalQuote : List Nat := [
  10075, 10081, 11776, 11778, 11782, 11785, 11787, 11788, 128630, 128633]

end DataTree.Text.Boundary.Table
