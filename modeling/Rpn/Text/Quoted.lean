import Rpn.Text.Printable
import Rpn.Text.Utf8

/-!
# Quoted text

How narration shows a text: between double quotes, on one line, and so that every byte can be
read back.  Printable code points stand for themselves; a quote and a backslash are escaped;
seven control characters have a letter; other control characters and bytes of ill-formed UTF-8
are written `\xNN`, and all else `\uNNNN` or `\UNNNNNNNN`.
-/

namespace Rpn.Text

/-- The last `n` hexadecimal digits of a number. -/
def hexDigits : Nat → Nat → Bytes
  | 0, _ => []
  | n + 1, c => hexDigits n (c / 16) ++ [hexDigit (c % 16)]

/-- The letter of a control character that has one. -/
def controlLetter? (c : Nat) : Option UInt8 :=
  [(7, 97), (8, 98), (9, 116), (10, 110), (11, 118), (12, 102), (13, 114)].lookup c

/-- A code point inside quotes. -/
def quotedPoint (c : Nat) : Bytes :=
  if c = 34 || c = 92 then [92, c.toUInt8]
  else if isPrintable c then Utf8.encode c
  else
    match controlLetter? c with
    | some letter => [92, letter]
    | none =>
      if c < 0x20 || c = 0x7F then 92 :: 120 :: hexDigits 2 c
      else if c < 0x10000 then 92 :: 117 :: hexDigits 4 c
      else 92 :: 85 :: hexDigits 8 c

/-- The inside of the quotes, for what follows the first `skip` bytes of a text. -/
def quotedFrom : Nat → Bytes → Bytes
  | _, [] => []
  | skip + 1, _ :: rest => quotedFrom skip rest
  | 0, b :: rest =>
    match Utf8.decode (b :: rest) with
    | some (c, n) => quotedPoint c ++ quotedFrom (n - 1) rest
    | none => 92 :: 120 :: (hexDigits 2 b.toNat ++ quotedFrom 0 rest)

/-- A text between double quotes. -/
def quoted (text : Bytes) : Bytes :=
  34 :: (quotedFrom 0 text ++ [34])

example : quoted (ascii "1,\n") = ascii "\"1,\\n\"" := by decide +kernel

end Rpn.Text
