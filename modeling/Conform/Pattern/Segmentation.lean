import Conform.Pattern.Property
import Conform.Pattern.Script

/-!
How characters take part in the division of a text into graphemes, words and sentences: each division
sorts characters into classes, and a character of none of them has no class. The classes follow from the
categories and properties of characters.
-/

namespace Conform.Pattern.Segmentation

open Property (table)
open Known (category categories)

def carriageReturn : CharSet := table "D"

def lineFeed : CharSet := table "A"

def joiner : CharSet := table "200D"

/-! ### Graphemes -/

/-- Letters and signs that belong to what follows them. -/
def prepended : CharSet := Property.prependedConcatenationMark.union (table
  "D4E 111C2-111C3 113D1 1193F 11941 11A3A 11A84-11A89 11D46 11F02")

/-- Marks that extend the grapheme before them; the joiner has a class of its own. -/
def graphemeExtend : CharSet := (Property.extending.union Property.emojiModifier).difference joiner

/-- Controls and what else shows nothing and joins nothing. -/
def control : CharSet :=
  (CharSet.unions [categories [.control, .format, .lineSeparator, .paragraphSeparator],
    Property.defaultIgnorable.difference Known.assigned]).difference
    (.unions [carriageReturn, lineFeed, joiner, prepended, graphemeExtend])

/-- Marks with a width of their own. -/
def spacingMark : CharSet :=
  (CharSet.unions [category .spacingMark, table "E33 EB3"]).difference
    (graphemeExtend.union (table
      "102B-102C 1038 1062-1064 1067-106D 1083 1087-108C 108F 109A-109C 1A61 1A63-1A64 AA7B AA7D 11720-11721"))

def leadingJamo : CharSet := table "1100-115F A960-A97C"

def vowelJamo : CharSet := table "1160-11A7 D7B0-D7C6 16D63 16D67-16D6A"

def trailingJamo : CharSet := table "11A8-11FF D7CB-D7FB"

/-- The syllables that end in a vowel. -/
def openSyllable : CharSet := table "AC00-D788/1C"

def closedSyllable : CharSet := (table "AC00-D7A3").difference openSyllable

/-- The classes of graphemes by their names. -/
def graphemeClasses : List (List String × CharSet) :=
  [(["cr"], carriageReturn), (["lf"], lineFeed), (["cn", "control"], control), (["ex", "extend"], graphemeExtend),
    (["zwj"], joiner), (["ri", "regionalindicator"], Property.regionalIndicator), (["pp", "prepend"], prepended),
    (["sm", "spacingmark"], spacingMark), (["l"], leadingJamo), (["v"], vowelJamo), (["t"], trailingJamo),
    (["lv"], openSyllable), (["lvt"], closedSyllable)]

/-! ### Words -/

def wordExtend : CharSet :=
  (CharSet.unions [Property.extending, category .spacingMark, Property.emojiModifier]).difference joiner

/-- Signs that stand before a number. -/
def numberSign : CharSet := Property.prependedConcatenationMark.difference (table "70F")

/-- Digits and the signs inside a number that only numbers have. -/
def numeric : CharSet :=
  .unions [category .decimalNumber, numberSign, table "66B-66C"]

def format : CharSet :=
  (category .format).difference
    (.unions [table "200B-200D", Property.prependedConcatenationMark, wordExtend])

/-- The characters of the script of that name. -/
def script (name : String) : CharSet := .ofRanges ((Script.script? name).getD [])

def katakana : CharSet := (script "kana").union (table "3031-3035 309B-309C 30A0 30FC FF70")

def hebrewLetter : CharSet := (category .otherLetter).intersection (script "hebr")

/-- Letters of scripts that do not part words by blanks. -/
def dependentLetter : CharSet := table
  "E01-E30 E32-E33 E40-E46 E81-E82 E84 E86-E8A E8C-EA3 EA5 EA7-EB0 EB2-EB3 EBD EC0-EC4 EC6 EDC-EDF 1000-102A
    103F 1050-1055 105A-105D 1061 1065-1066 106E-1070 1075-1081 108E 1780-17B3 17D7 17DC 1950-196D 1970-1974
    1980-19AB 19B0-19C9 1A20-1A54 1AA7 A9E0-A9E4 A9E6-A9EF A9FA-A9FE AA60-AA76 AA7A AA7E-AAAF AAB1 AAB5-AAB6
    AAB9-AABD AAC0 AAC2 AADB-AADD 11700-1171A 11740-11746"

/-- Signs that count as letters inside words. -/
def wordSign : CharSet := table
  "2C2-2C5 2D2-2D7 2DE-2DF 2E5-2EB 2ED 2EF-2FF 55A-55C 55E 58A 5F3 70F A708-A716 A720-A721 A789-A78A AB5B"

def wordLetter : CharSet :=
  (Known.alphabetic.union wordSign).difference
    (.unions [Property.ideographic, katakana, script "hira", hebrewLetter, dependentLetter,
      wordExtend])

/-- Blanks that do not hold words together. -/
def wordBlank : CharSet := (category .spaceSeparator).difference (table "A0 2007 202F")

/-- The classes of words by their names. -/
def wordClasses : List (List String × CharSet) :=
  [(["cr"], carriageReturn), (["lf"], lineFeed), (["nl", "newline"], table "B-C 85 2028-2029"),
    (["extend"], wordExtend), (["zwj"], joiner), (["ri", "regionalindicator"], Property.regionalIndicator),
    (["fo", "format"], format), (["ka", "katakana"], katakana), (["hl", "hebrewletter"], hebrewLetter),
    (["le", "aletter"], wordLetter), (["sq", "singlequote"], table "27"), (["dq", "doublequote"], table "22"),
    (["mb", "midnumlet"], table "2E 2018-2019 2024 FE52 FF07 FF0E"),
    (["ml", "midletter"], table "3A B7 387 55F 5F4 2027 FE13 FE55 FF1A"),
    (["mn", "midnum"], table "2C 3B 37E 589 60C-60D 66C 7F8 2044 FE10 FE14 FE50 FE54 FF0C FF1B"),
    (["nu", "numeric"], numeric.difference (table "66C")),
    (["ex", "extendnumlet"], (category .connectorPunctuation).union (table "202F")),
    (["wsegspace"], wordBlank)]

/-! ### Sentences -/

def sentenceExtend : CharSet := .unions [Property.extending, category .spacingMark, joiner]

def separator : CharSet := table "85 2028-2029"

/-- The stops that may also abbreviate. -/
def ambiguousStop : CharSet := table "2E 2024 FE52 FF0E"

def small : CharSet := Known.lowercase.difference (Property.extending.union (table "10D0-10FA 10FD-10FF"))

def capital : CharSet :=
  (Known.uppercase.union Property.titlecase).difference (table "1C90-1CBA 1CBD-1CBF")

def caselessLetter : CharSet :=
  (Known.alphabetic.union (table "5F3")).difference (.unions [small, capital, sentenceExtend])

/-- Brackets and quotation marks. -/
def enclosing : CharSet :=
  .unions [categories [.openPunctuation, .closePunctuation, .initialPunctuation, .finalPunctuation],
    table "22 27 275B-2760 1F676-1F678 2E00-2E01 2E06-2E08 2E0B"]

/-- The signs that show a sentence to go on. -/
def continuing : CharSet := table
  "2C-2D 3A-3B 37E 55D 60C-60D 7F8 1802 1808 2013-2014 3001 FE10-FE11 FE13-FE14 FE31-FE32 FE50-FE51
    FE54-FE55 FE58 FE63 FF0C-FF0D FF1A-FF1B FF64"

/-- The classes of sentences by their names. -/
def sentenceClasses : List (List String × CharSet) :=
  [(["cr"], carriageReturn), (["lf"], lineFeed), (["ex", "extend"], sentenceExtend), (["se", "sep"], separator),
    (["fo", "format"], (category .format).difference (sentenceExtend.union (numeric.union (table "200C")))),
    (["sp"], Known.blank.difference (.unions [separator, carriageReturn, lineFeed])),
    (["lo", "lower"], small), (["up", "upper"], capital), (["le", "oletter"], caselessLetter),
    (["nu", "numeric"], numeric), (["at", "aterm"], ambiguousStop),
    (["st", "sterm"], Property.sentenceTerminal.difference ambiguousStop), (["cl", "close"], enclosing),
    (["sc", "scontinue"], continuing)]

/-- The class of that name among classes. -/
def find? (classes : List (List String × CharSet)) (name : String) : Option CharSet :=
  (classes.find? (·.1.contains name)).map Prod.snd

end Conform.Pattern.Segmentation
