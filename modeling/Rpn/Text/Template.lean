import Rpn.Text.Decimal

/-!
# Message templates

Messages are written from a template and a list of arguments.  `%d` and `%v` show a number
with its digits grouped by thousands, `%v` and `%s` show a text as it is, and `%%` is a
percent sign.  Each verb takes the next argument: a verb that finds none says so, and
arguments left over are not shown.

* `Template.fill` writes a message.
-/

namespace Rpn

/-- What a verb of a template can show. -/
inductive Argument where
  | number (n : Int)
  | text (bytes : Bytes)
  deriving DecidableEq, Repr

namespace Template

/-- An argument as a verb shows it; a verb that does not fit names the argument's kind. -/
def shown (verb : UInt8) : Argument → Bytes
  | .number n =>
    if verb = 100 || verb = 118 then grouped n
    else ascii "%!" ++ verb :: (ascii "(int=" ++ grouped n ++ ascii ")")
  | .text bytes =>
    if verb = 115 || verb = 118 then bytes
    else ascii "%!" ++ verb :: (ascii "(string=" ++ bytes ++ ascii ")")

/-- What a verb without an argument shows. -/
def missing (verb : UInt8) : Bytes :=
  ascii "%!" ++ verb :: ascii "(MISSING)"

/-- The message that a template makes of its arguments. -/
def fill : Bytes → List Argument → Bytes
  | [], _ => []
  | b :: rest, arguments =>
    if b = 37 then
      match rest with
      | [] => ascii "%!(NOVERB)"
      | verb :: rest =>
        if verb = 37 then 37 :: fill rest arguments
        else
          match arguments with
          | [] => missing verb ++ fill rest []
          | argument :: arguments => shown verb argument ++ fill rest arguments
    else b :: fill rest arguments

end Template

end Rpn
