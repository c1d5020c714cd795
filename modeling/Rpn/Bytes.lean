/-!
# Byte texts

Every text of the library is a list of bytes.  A text read from outside need not be
well-formed UTF-8, and every rule here (delimiters, lengths, the order of names) is a rule
about bytes.

* `ascii` writes a text of the library's own as bytes;
* `lowerCase` maps the ASCII capitals and nothing else;
* `digitValue?` reads a digit of a base up to 36, and `hexDigit` writes one of a base up to 16.
-/

namespace Rpn

/-- A text as a sequence of bytes. -/
abbrev Bytes := List UInt8

/-- The bytes of a text whose characters are all ASCII. -/
def ascii (s : String) : Bytes :=
  s.toList.map fun c => c.toNat.toUInt8

/-- Whether a byte is one of the ASCII digits. -/
def isDigit (b : UInt8) : Bool :=
  48 ≤ b && b ≤ 57

/-- The small letter of an ASCII capital; every other byte is left alone. -/
def lowerCase (b : UInt8) : UInt8 :=
  if 65 ≤ b && b ≤ 90 then b + 32 else b

/-- The value of a digit in bases up to 36, where a letter of either case follows 9. -/
def digitValue? (b : UInt8) : Option Nat :=
  if isDigit b then some (b.toNat - 48)
  else if 97 ≤ lowerCase b && lowerCase b ≤ 122 then some ((lowerCase b).toNat - 87)
  else none

/-- The digit of a value below 16, with small letters. -/
def hexDigit (n : Nat) : UInt8 :=
  if n < 10 then (48 + n).toUInt8 else (87 + n).toUInt8

end Rpn
