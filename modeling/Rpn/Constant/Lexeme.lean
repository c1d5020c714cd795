import Rpn.Constant.Failure
import Rpn.Text.Decimal
import Rpn.Text.Letter
import Rpn.Text.Utf8

/-!
# Lexemes of constant expressions

The words of the small language inside `$(...)`: names, numbers, quoted texts, operators,
brackets and the ends of lines.  Inside brackets a newline is white space; a backslash in
front of a newline joins two lines; `#` begins a comment; a NUL ends the text.  A line outside
brackets may not begin with white space unless it is blank.

* `Lexeme.scan` divides a text into lexemes, or refuses it.
-/

namespace Rpn.Constant

/-- The operators between two operands. -/
inductive Dyadic where
  | or
  | and
  | equal
  | notEqual
  | less
  | greater
  | atMost
  | atLeast
  | member
  | notMember
  | bitOr
  | bitXor
  | bitAnd
  | shiftLeft
  | shiftRight
  | plus
  | minus
  | times
  | divide
  | floorDivide
  | modulo
  deriving DecidableEq, Repr

/-- The kinds of brackets. -/
inductive Bracket where
  | round
  | square
  | curly
  deriving DecidableEq, Repr

/-- A word of a constant expression. -/
inductive Lexeme where
  | identifier (bytes : Bytes)
  | integer (n : Nat)
  /-- The number `mantissa * 10 ^ exponent`. -/
  | real (mantissa : Nat) (exponent : Int)
  | string (bytes : Bytes)
  | dyadic (op : Dyadic)
  | complement
  | negation
  | ifWord
  | elseWord
  | forWord
  | passWord
  | opening (bracket : Bracket)
  | closing (bracket : Bracket)
  | comma
  | semicolon
  | assign
  | newline
  deriving DecidableEq, Repr

namespace Lexeme

/-- A lexeme and the text behind it. -/
abbrev Reading := Except Failure (Lexeme × Bytes)

/-! ## Names -/

/-- Whether a code point can begin a name. -/
def isNameStart (c : Nat) : Bool :=
  c = 95 || Text.isLetter c

/-- Whether a code point can stand in a name. -/
def isNamePoint (c : Nat) : Bool :=
  (48 ≤ c && c ≤ 57) || isNameStart c

/-- The name at the head of a text, behind the bytes `seen` in reverse and the first `skip`
bytes of the text. -/
def nameFrom (seen : Bytes) : Nat → Bytes → Bytes × Bytes
  | _, [] => (seen.reverse, [])
  | skip + 1, b :: rest => nameFrom (b :: seen) skip rest
  | 0, b :: rest =>
    match Utf8.decode (b :: rest) with
    | some (c, n) =>
      if isNamePoint c then nameFrom (b :: seen) (n - 1) rest else (seen.reverse, b :: rest)
    | none => (seen.reverse, b :: rest)

/-- The words with a meaning of their own. -/
def keywords : List (Bytes × Lexeme) :=
  [(ascii "and", .dyadic .and), (ascii "or", .dyadic .or), (ascii "in", .dyadic .member),
   (ascii "not", .negation), (ascii "if", .ifWord), (ascii "else", .elseWord),
   (ascii "for", .forWord), (ascii "pass", .passWord)]

/-- The words that no constant expression can hold. -/
def refusedWords : List Bytes :=
  [ascii "as", ascii "async", ascii "await", ascii "break", ascii "class", ascii "continue",
   ascii "def", ascii "del", ascii "elif", ascii "except", ascii "finally", ascii "from",
   ascii "global", ascii "import", ascii "is", ascii "lambda", ascii "load", ascii "nonlocal",
   ascii "raise", ascii "return", ascii "try", ascii "while", ascii "with", ascii "yield"]

/-- Reads a name or a keyword. -/
def word (text : Bytes) : Reading :=
  let (name, rest) := nameFrom [] 0 text
  match keywords.lookup name with
  | some keyword => .ok (keyword, rest)
  | none => if refusedWords.contains name then .error .malformed else .ok (.identifier name, rest)

/-! ## Numbers -/

/-- Whether a byte is a digit of a base. -/
def isDigitOf (base : Nat) (b : UInt8) : Bool :=
  match digitValue? b with
  | some d => d < base
  | none => false

/-- Reads the digits of an integer of a base.  Where `limit` is given the integer must stay
below it. -/
def basedInteger (base : Nat) (limit : Option Nat) (text : Bytes) : Reading :=
  let digits := text.takeWhile (isDigitOf base)
  let n := numeralValue base digits
  if digits = [] || limit.any (· ≤ n) then .error .malformed
  else .ok (.integer n, text.dropWhile (isDigitOf base))

/-- Whether `mantissa * 10 ^ exponent` is too large for a double.  The bound is the midpoint
between the largest double and the next power of two. -/
def isTooLarge (mantissa : Nat) (exponent : Int) : Bool :=
  let bound := Nat.pow 2 1024 - Nat.pow 2 970
  if 0 ≤ exponent then bound ≤ mantissa * Nat.pow 10 exponent.toNat
  else bound * Nat.pow 10 exponent.natAbs ≤ mantissa

/-- The number of given digits before and behind the point, and an exponent.  A number below
`10 ^ size` is far too small for a double if `size` is below -400, and one that is not below
`10 ^ (size - 1)` is far too large if `size` is above 400. -/
def realOf (whole fraction : Bytes) (exponent : Int) (rest : Bytes) : Reading :=
  let digits := (whole ++ fraction).dropWhile (· = 48)
  let exponent := exponent - fraction.length
  let size := digits.length + exponent
  if digits = [] || size < -400 then .ok (.real 0 0, rest)
  else if 400 < size then .error .malformed
  else
    let mantissa := numeralValue 10 digits
    if isTooLarge mantissa exponent then .error .malformed
    else .ok (.real mantissa exponent, rest)

/-- The exponent that digits stand for.  Digits behind a value of five are not read. -/
def exponentValue (digits : Bytes) : Nat :=
  digits.foldl
    (fun n b => if n < 10000 then n * 10 + (digitValue? b).getD 0 else n) 0

/-- Reads the exponent of a number, if it has one. -/
def exponentPart (whole fraction text : Bytes) : Reading :=
  match text with
  | [] => realOf whole fraction 0 []
  | mark :: rest =>
    if lowerCase mark = 101 then
      let (negative, rest) :=
        match rest with
        | [] => (false, [])
        | sign :: digits =>
          if sign = 45 then (true, digits)
          else if sign = 43 then (false, digits)
          else (false, rest)
      let digits := rest.takeWhile isDigit
      let n := Int.ofNat (exponentValue digits)
      if digits = [] then .error .malformed
      else realOf whole fraction (if negative then -n else n) (rest.dropWhile isDigit)
    else realOf whole fraction 0 text

/-- Reads what follows the point of a number. -/
def fractionPart (whole text : Bytes) : Reading :=
  exponentPart whole (text.takeWhile isDigit) (text.dropWhile isDigit)

/-- Reads a number whose digits up to a point, an exponent or its end are `whole`. -/
def decimalNumber (whole rest : Bytes) : Reading :=
  match rest with
  | [] => integral
  | mark :: more =>
    if mark = 46 then fractionPart whole more
    else if lowerCase mark = 101 then exponentPart whole [] rest
    else integral
where
  /-- An integer; a leading zero may be followed by zeros only. -/
  integral : Reading :=
    if whole.head? = some 48 && whole.any (· ≠ 48) then .error .malformed
    else .ok (.integer (numeralValue 10 whole), rest)

/-- The bound on octal and binary integers. -/
def wordLimit : Nat := 0x8000000000000000

/-- Reads a number that begins with a digit. -/
def number (text : Bytes) : Reading :=
  match text with
  | first :: letter :: digits =>
    if first = 48 && lowerCase letter = 120 then basedInteger 16 none digits
    else if first = 48 && lowerCase letter = 111 then basedInteger 8 (some wordLimit) digits
    else if first = 48 && lowerCase letter = 98 then basedInteger 2 (some wordLimit) digits
    else decimalNumber (text.takeWhile isDigit) (text.dropWhile isDigit)
  | _ => decimalNumber (text.takeWhile isDigit) (text.dropWhile isDigit)

/-! ## Quoted texts -/

/-- Reads a quoted text behind its opening quote, the bytes `seen` of it in reverse and the
first `skip` bytes.  A text stays on its line and has no escapes; an ill-formed byte is read
as the replacement character. -/
def textFrom (quote : UInt8) (seen : Bytes) : Nat → Bytes → Reading
  | _, [] => .error .malformed
  | skip + 1, b :: rest => textFrom quote (b :: seen) skip rest
  | 0, b :: rest =>
    if b = quote then .ok (.string seen.reverse, rest)
    else if b = 10 || b = 13 || b = 92 then .error .malformed
    else
      match Utf8.decode (b :: rest) with
      | some (_, n) => textFrom quote (b :: seen) (n - 1) rest
      | none => textFrom quote ((Utf8.encode Utf8.replacement).reverse ++ seen) 0 rest

/-- Reads a quoted text behind its opening quote.  Two more quotes would open a text of another
form, which is refused. -/
def quotedText (quote : UInt8) (rest : Bytes) : Reading :=
  if [quote, quote].isPrefixOf rest then .error .malformed else textFrom quote [] 0 rest

/-! ## Marks -/

/-- The marks, a longer one before those that begin it; a mark without a lexeme is refused. -/
def marks : List (Bytes × Option Lexeme) :=
  [(ascii "<<=", none), (ascii ">>=", none), (ascii "//=", none),
   (ascii "==", some (.dyadic .equal)), (ascii "!=", some (.dyadic .notEqual)),
   (ascii "<=", some (.dyadic .atMost)), (ascii ">=", some (.dyadic .atLeast)),
   (ascii "<<", some (.dyadic .shiftLeft)), (ascii ">>", some (.dyadic .shiftRight)),
   (ascii "//", some (.dyadic .floorDivide)), (ascii "**", none), (ascii "+=", none),
   (ascii "-=", none), (ascii "*=", none), (ascii "/=", none), (ascii "%=", none),
   (ascii "&=", none), (ascii "|=", none), (ascii "^=", none),
   (ascii "+", some (.dyadic .plus)), (ascii "-", some (.dyadic .minus)),
   (ascii "*", some (.dyadic .times)), (ascii "/", some (.dyadic .divide)),
   (ascii "%", some (.dyadic .modulo)), (ascii "&", some (.dyadic .bitAnd)),
   (ascii "|", some (.dyadic .bitOr)), (ascii "^", some (.dyadic .bitXor)),
   (ascii "<", some (.dyadic .less)), (ascii ">", some (.dyadic .greater)),
   (ascii "~", some .complement), (ascii "=", some .assign), (ascii ",", some .comma),
   (ascii ";", some .semicolon), (ascii "(", some (.opening .round)),
   (ascii ")", some (.closing .round)), (ascii "[", some (.opening .square)),
   (ascii "]", some (.closing .square)), (ascii "\x7b", some (.opening .curly)),
   (ascii "\x7d", some (.closing .curly))]

/-- Reads a mark. -/
def mark (text : Bytes) : Reading :=
  match marks.find? fun entry => entry.1.isPrefixOf text with
  | some (bytes, some lexeme) => .ok (lexeme, text.drop bytes.length)
  | _ => .error .malformed

/-- Reads the lexeme at the head of a text. -/
def read (text : Bytes) : Reading :=
  match text with
  | [] => .error .malformed
  | b :: rest =>
    if b = 34 || b = 39 then quotedText b rest
    else if isDigit b then number text
    else if b = 46 then
      if (rest.head?.map isDigit).getD false then fractionPart [] rest else .error .malformed
    else
      match Utf8.decode text with
      | some (c, _) => if isNameStart c then word text else mark text
      | none => .error .malformed

/-! ## Lines -/

/-- The text behind a newline at the head of a text: a line feed, a carriage return, or a
carriage return with a line feed. -/
def afterNewline? (text : Bytes) : Option Bytes :=
  match text with
  | [] => none
  | b :: rest =>
    if b = 10 then some rest
    else if b = 13 then
      match rest with
      | [] => some []
      | c :: more => if c = 10 then some more else some rest
    else none

/-- Whether a byte ends a comment. -/
def endsComment (b : UInt8) : Bool :=
  b = 0 || b = 10 || b = 13

/-- Whether a byte is white space within a line. -/
def isSpace (b : UInt8) : Bool :=
  b = 32 || b = 9

/-- A text without the white space and the comment at its head. -/
def skipSpace (text : Bytes) : Bytes :=
  match text.dropWhile isSpace with
  | [] => []
  | b :: rest => if b = 35 then rest.dropWhile fun c => !endsComment c else b :: rest

/-- The nesting of brackets behind a lexeme; there is none below zero. -/
def depthAfter (depth : Nat) : Lexeme → Except Failure Nat
  | .opening _ => .ok (depth + 1)
  | .closing _ => if depth = 0 then .error .malformed else .ok (depth - 1)
  | _ => .ok depth

/-- Divides a text into lexemes.  `depth` counts the open brackets, `atStart` tells whether a
line begins here, and `fuel` bounds the number of lexemes and newlines. -/
def scanFrom : Nat → Nat → Bool → Bytes → Except Failure (List Lexeme)
  | 0, _, _, _ => .error .malformed
  | fuel + 1, depth, atStart, text =>
    match skipSpace text with
    | [] => .ok []
    | b :: rest =>
      if b = 0 then .ok []
      else
        match afterNewline? (b :: rest) with
        | some next =>
          if atStart || depth ≠ 0 then scanFrom fuel depth true next
          else (scanFrom fuel depth true next).map (.newline :: ·)
        | none =>
          if atStart && depth = 0 && (text.head?.map isSpace).getD false then .error .malformed
          else if b = 92 then
            match afterNewline? rest with
            | some next => scanFrom fuel depth false next
            | none => .error .malformed
          else do
            let (lexeme, next) ← read (b :: rest)
            let depth ← depthAfter depth lexeme
            let lexemes ← scanFrom fuel depth false next
            return lexeme :: lexemes

/-- Divides a text into lexemes.  Every lexeme and newline takes a byte at least, so the
length of the text is fuel enough. -/
def scan (text : Bytes) : Except Failure (List Lexeme) :=
  scanFrom (text.length + 1) 0 true text

end Lexeme

end Rpn.Constant
