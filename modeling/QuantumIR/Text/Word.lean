import QuantumIR.Text.Blank

/-!
# Words

The character classes from which the line shapes are made, and the few cuts
that those shapes need.

Every shape is deterministic: a name is the longest run of name characters, an
argument list ends at the last closing parenthesis. Reading a shape is
therefore a chain of cuts, each of which either fails or leaves the rest of the
line, and no alternative is ever tried twice.

## Main definitions

* `isWordChar`: ASCII letters, digits and the underscore.
* `isNameChar`: Word characters and `.`, `$`, `-`, as names in assembly have.
* `skipSpaces`: Drops the ASCII spaces in front.
* `skipSpaces1?`: The same, but at least one is required.
* `word?`: Cuts off the longest non-empty run of a class.
* `identifier?`: Cuts off a letter or underscore followed by word characters.
* `char?`, `literal?`: What follows a fixed character or text.
* `after?`: What follows the first occurrence of a character.
* `beforeLast?`: What precedes the last occurrence of a character.
* `occurs`: Whether a fixed text occurs anywhere.
-/

namespace QuantumIR

namespace Text

/-- ASCII letters, digits and the underscore. -/
def isWordChar (c : Char) : Bool :=
  c.isAlphanum || c == '_'

/-- Characters of the names of functions, labels and values. -/
def isNameChar (c : Char) : Bool :=
  isWordChar c || c == '.' || c == '$' || c == '-'

/-- Characters an identifier may begin with. -/
def isIdentifierStart (c : Char) : Bool :=
  c.isAlpha || c == '_'

/-- Drops the ASCII spaces in front. -/
def skipSpaces (s : List Char) : List Char :=
  s.dropWhile isSpace

/-- Drops the ASCII spaces in front, of which there must be at least one. -/
def skipSpaces1? : List Char → Option (List Char)
  | c :: s => if isSpace c then some (skipSpaces s) else none
  | [] => none

/-- Cuts off the longest run of characters of the class `p`, which must not be
    empty. -/
def word? (p : Char → Bool) (s : List Char) : Option (List Char × List Char) :=
  if (s.takeWhile p).isEmpty then none else some (s.takeWhile p, s.dropWhile p)

/-- Cuts off an identifier: a letter or underscore and the word characters
    after it. -/
def identifier? : List Char → Option (List Char × List Char)
  | c :: s =>
    if isIdentifierStart c then some (c :: s.takeWhile isWordChar, s.dropWhile isWordChar) else none
  | [] => none

/-- What follows the character `c` if the text starts with it. -/
def char? (c : Char) : List Char → Option (List Char)
  | d :: s => if d == c then some s else none
  | [] => none

/-- What follows the first occurrence of `c`. -/
def after? (c : Char) (s : List Char) : Option (List Char) :=
  char? c (s.dropWhile (· != c))

/-- What precedes the last occurrence of `c`. -/
def beforeLast? (c : Char) (s : List Char) : Option (List Char) :=
  (after? c s.reverse).map List.reverse

/-- What follows the text `p` if `s` starts with it. -/
def literal? (p : String) (s : List Char) : Option (List Char) :=
  p.toList.isPrefixOf? s

/-- Whether the text `p` occurs in `s`, at any place. -/
def occurs (p : List Char) : List Char → Bool
  | [] => p.isEmpty
  | c :: s => p.isPrefixOf (c :: s) || occurs p s

end Text

end QuantumIR
