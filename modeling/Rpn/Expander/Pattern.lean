import Rpn.Text.Utf8

/-!
# Patterns in an expression

Two patterns are looked for in an expression before it is evaluated: a character in single
quotes, and a constant expression `$(...)` whose brackets are nested at most one deep.  Each
pattern matches at most one way at a place, so a scan from the left that goes on behind every
match finds all leftmost matches.

* `pieces` divides a text into matches and the bytes between them, and
  `flatten_pieces` says that it loses nothing;
* `quoteMatch?` and `constantMatch?` are the two patterns.
-/

namespace Rpn.Expander

/-- A part of a text: a byte of no match, or a match. -/
inductive Piece where
  | byte (b : UInt8)
  | hit (text : Bytes)
  deriving DecidableEq, Repr

/-- The text of a part. -/
def Piece.text : Piece → Bytes
  | .byte b => [b]
  | .hit text => text

/-- Divides what follows the first `skip` bytes of a text, behind the parts `seen` in reverse.
A pattern tells how many bytes match at the head of a text. -/
def piecesFrom (pattern : Bytes → Option Nat) (seen : List Piece) : Nat → Bytes → List Piece
  | _, [] => seen.reverse
  | skip + 1, _ :: rest => piecesFrom pattern seen skip rest
  | 0, b :: rest =>
    match pattern (b :: rest) with
    | some n => piecesFrom pattern (.hit ((b :: rest).take n) :: seen) (n - 1) rest
    | none => piecesFrom pattern (.byte b :: seen) 0 rest

/-- The matches of a pattern in a text and the bytes between them. -/
def pieces (pattern : Bytes → Option Nat) (text : Bytes) : List Piece :=
  piecesFrom pattern [] 0 text

theorem flatten_piecesFrom (pattern : Bytes → Option Nat)
    (positive : ∀ t n, pattern t = some n → 0 < n) (seen : List Piece) (skip : Nat)
    (text : Bytes) :
    (piecesFrom pattern seen skip text).flatMap Piece.text =
      seen.reverse.flatMap Piece.text ++ text.drop skip := by
  induction text generalizing seen skip with
  | nil => simp [piecesFrom]
  | cons b rest ih =>
    cases skip with
    | succ skip => simp [piecesFrom, ih]
    | zero =>
      rw [piecesFrom]
      split
      · rename_i n h
        have hn := positive _ _ h
        obtain ⟨k, rfl⟩ : ∃ k, n = k + 1 := ⟨n - 1, by omega⟩
        simp [ih, Piece.text]
      · simp [ih, Piece.text]

/-- The parts of a text put together are the text. -/
theorem flatten_pieces (pattern : Bytes → Option Nat)
    (positive : ∀ t n, pattern t = some n → 0 < n) (text : Bytes) :
    (pieces pattern text).flatMap Piece.text = text := by
  simp [pieces, flatten_piecesFrom pattern positive]

/-! ## Quoted characters -/

/-- The bytes up to and including the quote that closes a text of one code point. -/
def closedPoint? (text : Bytes) : Option Nat :=
  if text.head? = some 39 || text = [] then none
  else if (text.drop (Utf8.width text)).head? = some 39 then some (Utf8.width text + 1)
  else none

/-- The length of the quoted character at the head of a text: a quote, an optional backslash,
a code point other than a quote, and a quote. -/
def quoteMatch? (text : Bytes) : Option Nat :=
  match text with
  | [] => none
  | b :: rest =>
    if b = 39 then
      let escaped :=
        match rest with
        | [] => none
        | c :: more => if c = 92 then (closedPoint? more).map (· + 2) else none
      escaped.or ((closedPoint? rest).map (· + 1))
    else none

/-! ## Constant expressions -/

/-- The bytes up to and including the bracket that closes a constant expression; `inGroup`
tells whether an inner bracket is open, and `count` is the number of bytes in front. -/
def closing? (inGroup : Bool) (count : Nat) : Bytes → Option Nat
  | [] => none
  | b :: rest =>
    if b = 41 then if inGroup then closing? false (count + 1) rest else some (count + 1)
    else if b = 40 then if inGroup then none else closing? true (count + 1) rest
    else closing? inGroup (count + 1) rest

/-- The length of the constant expression at the head of a text. -/
def constantMatch? (text : Bytes) : Option Nat :=
  match text with
  | a :: b :: rest => if a = 36 && b = 40 then closing? false 2 rest else none
  | _ => none

end Rpn.Expander
