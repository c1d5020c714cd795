import Rpn.Error
import Rpn.Text.Blank

/-!
# Listings

A listing has one expression or directive a line.  The text behind a `;` is a comment, white
space at the ends of a line does not count, and blank lines are skipped but numbered.  A line
that begins with a point is a directive; its last argument keeps the rest of the line.

* `Listing.physicalLines` divides a text at its newlines;
* `Listing.parse` reads a listing, or tells the first line that is wrong.
-/

namespace Rpn

/-- What a line of a listing asks for. -/
inductive Statement where
  | expression (text : Bytes)
  | directive (name : Bytes) (arguments : List Bytes)
  deriving DecidableEq, Repr

/-- A line of a listing. -/
structure Line where
  /-- The number of the line in its text, from 1. -/
  number : Int64
  statement : Statement
  deriving DecidableEq, Repr

namespace Listing

/-- The most bytes of a line, its carriage return included. -/
def longestLine : Nat := 65535

/-- Extends lines by the byte in front of them. -/
def lineStep (b : UInt8) (lines : List Bytes) : List Bytes :=
  if b = 10 then [] :: lines
  else
    match lines with
    | [] => [[b]]
    | line :: rest => (b :: line) :: rest

/-- The lines of a text, each ended by a newline or by the end of the text. -/
def physicalLines (text : Bytes) : List Bytes :=
  text.foldr lineStep []

/-- A line without the carriage return at its end. -/
def dropReturn (line : Bytes) : Bytes :=
  if line.getLast? = some 13 then line.dropLast else line

/-- The part of a line that counts: in front of the comment, and trimmed. -/
def content (line : Bytes) : Bytes :=
  Text.trim ((dropReturn line).takeWhile fun b => b ≠ 59)

/-- The directives, and the number of arguments that each takes. -/
def directives : List (Bytes × Nat) :=
  [(ascii ".equ", 2), (ascii ".set", 2)]

/-- Reads the content of a directive line. -/
def directive (text : Bytes) : Except Error Statement :=
  match Text.fields 1 text with
  | [] => .error .directiveInvalid
  | name :: _ =>
    match directives.lookup name with
    | none => .error .directiveInvalid
    | some count =>
      let arguments := (Text.fields count text).drop 1
      if arguments.length = count then .ok (.directive name arguments)
      else .error .directiveForm

/-- Reads the content of a line; a blank one asks for nothing. -/
def statement (text : Bytes) : Except Error (Option Statement) :=
  match text with
  | [] => .ok none
  | first :: _ => if first = 46 then (directive text).map some else .ok (some (.expression text))

/-- Reads lines after the first `count`, of which `last` is the content of the last one and
`seen` are the statements, the latest first. -/
def parseLines (count : Nat) (last : Bytes) (seen : List Line) :
    List Bytes → Except Error (List Line)
  | [] => .ok seen.reverse
  | line :: rest =>
    if longestLine < line.length then .error (.inListing (Int64.ofNat count) last .lineTooLong)
    else
      let number := Int64.ofNat (count + 1)
      match statement (content line) with
      | .error e => .error (.inListing number (content line) e)
      | .ok none => parseLines (count + 1) (content line) seen rest
      | .ok (some s) => parseLines (count + 1) (content line) (⟨number, s⟩ :: seen) rest

/-- Reads a listing. -/
def parse (text : Bytes) : Except Error (List Line) :=
  parseLines 0 [] [] (physicalLines text)

theorem physicalLines_append_newline (front text : Bytes) :
    physicalLines (front ++ 10 :: text) = physicalLines (front ++ [10]) ++ physicalLines text := by
  simp only [physicalLines, List.foldr_append, List.foldr_cons, List.foldr_nil, lineStep, if_true]
  generalize text.foldr lineStep [] = lines
  suffices ∀ line : Bytes, ∀ before : List Bytes,
      front.foldr lineStep (line :: before ++ lines) =
        front.foldr lineStep (line :: before) ++ lines from this [] []
  induction front with
  | nil => exact fun _ _ => rfl
  | cons b rest ih =>
    intro line before
    rw [List.foldr_cons, ih, List.foldr_cons]
    have nonempty : rest.foldr lineStep (line :: before) ≠ [] := by
      cases rest with
      | nil => exact List.cons_ne_nil _ _
      | cons c rest =>
        rw [List.foldr_cons]
        unfold lineStep
        split
        · exact List.cons_ne_nil _ _
        · split <;> exact List.cons_ne_nil _ _
    match rest.foldr lineStep (line :: before), nonempty with
    | head :: tail, _ =>
      simp only [lineStep, List.cons_append]
      split <;> rfl

end Listing

end Rpn
