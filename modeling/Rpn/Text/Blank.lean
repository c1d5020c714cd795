import Rpn.Text.Utf8

/-!
# White space

White space is the 25 code points that Unicode gives the property.  An encoding of one of
them is recognised wherever it stands: its first byte is never the inner byte of another code
point, so looking for the encodings byte by byte and reading code point by code point agree.
A byte of ill-formed UTF-8 is not white space.

* `blank?` tells how many bytes of white space one code point at the head takes;
* `trimLeft`, `trimRight` and `trim` drop white space at the ends;
* `firstWord` splits a text in front of its first white space;
* `fields` splits a text into words, the last of them keeping the rest of the text.
-/

namespace Rpn.Text

/-- The code points of white space. -/
def blankPoints : List Nat :=
  [0x09, 0x0A, 0x0B, 0x0C, 0x0D, 0x20, 0x85, 0xA0, 0x1680, 0x2000, 0x2001, 0x2002, 0x2003,
   0x2004, 0x2005, 0x2006, 0x2007, 0x2008, 0x2009, 0x200A, 0x2028, 0x2029, 0x202F, 0x205F,
   0x3000]

/-- The encodings of white space. -/
def blanks : List Bytes :=
  blankPoints.map Utf8.encode

/-- The encodings of white space, each read from its last byte. -/
def reversedBlanks : List Bytes :=
  blanks.map List.reverse

/-- The length of the first pattern that a text begins with. -/
def headMatch? (patterns : List Bytes) (text : Bytes) : Option Nat :=
  (patterns.find? fun pattern => pattern.isPrefixOf text).map List.length

/-- The number of bytes of the white space at the head of a text. -/
def blank? (text : Bytes) : Option Nat :=
  headMatch? blanks text

/-- Drops patterns from the head of a text as long as it begins with one, after the first
`skip` bytes. -/
def dropMatches (patterns : List Bytes) : Nat → Bytes → Bytes
  | _, [] => []
  | skip + 1, _ :: rest => dropMatches patterns skip rest
  | 0, b :: rest =>
    match headMatch? patterns (b :: rest) with
    | some n => dropMatches patterns (n - 1) rest
    | none => b :: rest

/-- A text without the white space in front. -/
def trimLeft (text : Bytes) : Bytes :=
  dropMatches blanks 0 text

/-- A text without the white space behind. -/
def trimRight (text : Bytes) : Bytes :=
  (dropMatches reversedBlanks 0 text.reverse).reverse

/-- A text without the white space at its ends. -/
def trim (text : Bytes) : Bytes :=
  trimRight (trimLeft text)

/-- The bytes in front of the first white space, behind those of `word` in reverse, and the
text from there on. -/
def firstWordFrom (word : Bytes) : Bytes → Bytes × Bytes
  | [] => (word.reverse, [])
  | b :: rest =>
    if (blank? (b :: rest)).isSome then (word.reverse, b :: rest)
    else firstWordFrom (b :: word) rest

/-- A text split in front of its first white space. -/
def firstWord (text : Bytes) : Bytes × Bytes :=
  firstWordFrom [] text

/-- At most `n` words of a text without white space in front, and then what is left of it, if
anything is. -/
def fieldsFrom : Nat → Bytes → List Bytes
  | _, [] => []
  | 0, rest => [rest]
  | n + 1, rest => (firstWord rest).1 :: fieldsFrom n (trimLeft (firstWord rest).2)

/-- At most `n` words of a text, and then the rest of it, inner white space included. -/
def fields (n : Nat) (text : Bytes) : List Bytes :=
  fieldsFrom n (trim text)

theorem blanks_ne_nil : ∀ pattern ∈ blanks, pattern ≠ [] := by decide

example : trim (ascii " \t a b \n") = ascii "a b" := by decide
example : fields 2 (ascii ".equ NAME 1 + 2") = [ascii ".equ", ascii "NAME", ascii "1 + 2"] := by
  decide

end Rpn.Text
