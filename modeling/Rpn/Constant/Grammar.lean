import Rpn.Constant.Expr

/-!
# Grammar of constant expressions

Reads trees from lexemes.  From the weakest to the strongest, operators bind at these levels:
`or`, `and`, `not`, comparisons and membership, `|`, `^`, `&`, shifts, sums, products; then
come signs and `~`, calls and indexes.  Operators of one level group from the left, and
comparisons do not group at all.

* `Grammar.program` reads the statements of a text.

Every reader takes fuel, one unit for each reader that it calls.  Between two lexemes at most
sixteen readers are entered, so `program` gives each lexeme that much.
-/

namespace Rpn.Constant

/-- The level at which an operator binds. -/
def Dyadic.level : Dyadic → Nat
  | .or => 0
  | .and => 1
  | .equal | .notEqual | .less | .greater | .atMost | .atLeast | .member | .notMember => 3
  | .bitOr => 4
  | .bitXor => 5
  | .bitAnd => 6
  | .shiftLeft | .shiftRight => 7
  | .plus | .minus => 8
  | .times | .divide | .floorDivide | .modulo => 9

namespace Grammar

/-- The level of `not`. -/
def notLevel : Nat := 2

/-- The level of comparisons, which do not group. -/
def comparisonLevel : Nat := 3

/-- The level above all operators between two operands. -/
def operandLevel : Nat := 10

/-- The most arguments of a call. -/
def argumentLimit : Nat := 255

/-- The operator at the head of lexemes; `not` stands there only in front of `in`. -/
def operator? : List Lexeme → Except Failure (Option (Dyadic × List Lexeme))
  | .dyadic op :: rest => .ok (some (op, rest))
  | .negation :: .dyadic .member :: rest => .ok (some (.notMember, rest))
  | .negation :: _ => .error .malformed
  | _ => .ok none

/-- The lexemes behind a closing bracket. -/
def close (bracket : Bracket) : List Lexeme → Except Failure (List Lexeme)
  | .closing b :: rest => if b = bracket then .ok rest else .error .malformed
  | _ => .error .malformed

/-- Whether a list of expressions ends in front of the lexemes. -/
def endsList : List Lexeme → Bool
  | [] => true
  | .newline :: _ => true
  | .assign :: _ => true
  | .semicolon :: _ => true
  | .closing _ :: _ => true
  | _ => false

mutual

/-- Reads an expression, a choice included. -/
def test : Nat → List Lexeme → Except Failure (Expr × List Lexeme)
  | 0, _ => .error .malformed
  | fuel + 1, lexemes => do
    let (value, lexemes) ← level fuel 0 lexemes
    match lexemes with
    | .ifWord :: lexemes =>
      let (condition, lexemes) ← level fuel 0 lexemes
      match lexemes with
      | .elseWord :: lexemes =>
        let (otherwise, lexemes) ← test fuel lexemes
        return (.choice condition value otherwise, lexemes)
      | _ => .error .malformed
    | _ => return (value, lexemes)

/-- Reads an expression of operators of a level and above. -/
def level : Nat → Nat → List Lexeme → Except Failure (Expr × List Lexeme)
  | 0, _, _ => .error .malformed
  | fuel + 1, n, lexemes =>
    if operandLevel ≤ n then operand fuel lexemes
    else
      match lexemes, decide (n = notLevel) with
      | .negation :: lexemes, true => do
        let (value, lexemes) ← level fuel n lexemes
        return (.monadic .not value, lexemes)
      | lexemes, _ => do
        let (left, lexemes) ← level fuel (n + 1) lexemes
        operations fuel n true left lexemes

/-- Reads the operators of a level and their right operands, behind a left operand.  `isFirst`
tells whether the left operand has none of these operators. -/
def operations : Nat → Nat → Bool → Expr → List Lexeme → Except Failure (Expr × List Lexeme)
  | 0, _, _, _, _ => .error .malformed
  | fuel + 1, n, isFirst, left, lexemes => do
    match ← operator? lexemes with
    | none => return (left, lexemes)
    | some (op, rest) =>
      if op.level < n then return (left, lexemes)
      else if !isFirst && op.level = comparisonLevel then .error .malformed
      else
        let (right, rest) ← level fuel (op.level + 1) rest
        operations fuel n false (.combine op left right) rest

/-- Reads an operand: signs, then an atom with its calls and indexes. -/
def operand : Nat → List Lexeme → Except Failure (Expr × List Lexeme)
  | 0, _ => .error .malformed
  | fuel + 1, lexemes =>
    match lexemes with
    | .dyadic .plus :: lexemes => do
      let (value, lexemes) ← operand fuel lexemes
      return (.monadic .plus value, lexemes)
    | .dyadic .minus :: lexemes => do
      let (value, lexemes) ← operand fuel lexemes
      return (.monadic .minus value, lexemes)
    | .complement :: lexemes => do
      let (value, lexemes) ← operand fuel lexemes
      return (.monadic .complement value, lexemes)
    | _ => do
      let (value, lexemes) ← atom fuel lexemes
      accesses fuel value lexemes

/-- Reads a name, a number, a text or something in brackets. -/
def atom : Nat → List Lexeme → Except Failure (Expr × List Lexeme)
  | 0, _ => .error .malformed
  | fuel + 1, lexemes =>
    match lexemes with
    | .identifier bytes :: lexemes => .ok (.name bytes, lexemes)
    | .integer n :: lexemes => .ok (.integer n, lexemes)
    | .real mantissa exponent :: lexemes => .ok (.real mantissa exponent, lexemes)
    | .string bytes :: lexemes => .ok (.string bytes, lexemes)
    | .opening .curly :: .closing .curly :: lexemes => .ok (.dict, lexemes)
    | .opening .round :: .closing .round :: lexemes => .ok (.tuple [], lexemes)
    | .opening .round :: lexemes => do
      let (value, lexemes) ← expressions fuel true lexemes
      let lexemes ← close .round lexemes
      return (.paren value, lexemes)
    | .opening .square :: .closing .square :: lexemes => .ok (.list [], lexemes)
    | .opening .square :: lexemes => do
      let (first, lexemes) ← test fuel lexemes
      match lexemes with
      | .forWord :: .identifier var :: .dyadic .member :: lexemes =>
        let (source, lexemes) ← level fuel 0 lexemes
        let (body, lexemes) ← loop fuel first lexemes
        return (.comprehension var source body, lexemes)
      | lexemes =>
        let (elements, lexemes) ← moreExpressions fuel true [first] lexemes
        let lexemes ← close .square lexemes
        return (.list elements, lexemes)
    | _ => .error .malformed

/-- Reads the further clauses of a comprehension up to its bracket. -/
def loop : Nat → Expr → List Lexeme → Except Failure (Loop × List Lexeme)
  | 0, _, _ => .error .malformed
  | fuel + 1, value, lexemes =>
    match lexemes with
    | .closing .square :: lexemes => .ok (.element value, lexemes)
    | .forWord :: .identifier var :: .dyadic .member :: lexemes => do
      let (source, lexemes) ← level fuel 0 lexemes
      let (body, lexemes) ← loop fuel value lexemes
      return (.each var source body, lexemes)
    | .ifWord :: lexemes => do
      let (condition, lexemes) ← level fuel 0 lexemes
      let (body, lexemes) ← loop fuel value lexemes
      return (.only condition body, lexemes)
    | _ => .error .malformed

/-- Reads the calls and indexes behind an atom. -/
def accesses : Nat → Expr → List Lexeme → Except Failure (Expr × List Lexeme)
  | 0, _, _ => .error .malformed
  | fuel + 1, value, lexemes =>
    match lexemes with
    | .opening .square :: lexemes => do
      let (position, lexemes) ← expressions fuel false lexemes
      let lexemes ← close .square lexemes
      accesses fuel (.index value position) lexemes
    | .opening .round :: lexemes => do
      let (values, lexemes) ← arguments fuel [] lexemes
      if argumentLimit < values.length then .error .malformed
      else accesses fuel (.call value values) lexemes
    | _ => .ok (value, lexemes)

/-- Reads the arguments of a call up to its bracket, behind those of `seen` in reverse. -/
def arguments : Nat → List Expr → List Lexeme → Except Failure (List Expr × List Lexeme)
  | 0, _, _ => .error .malformed
  | fuel + 1, seen, lexemes =>
    match lexemes with
    | .closing .round :: lexemes => .ok (seen.reverse, lexemes)
    | _ => do
      let (value, lexemes) ← test fuel lexemes
      match lexemes with
      | .comma :: lexemes => arguments fuel (value :: seen) lexemes
      | .closing .round :: lexemes => return ((value :: seen).reverse, lexemes)
      | _ => .error .malformed

/-- Reads an expression, or several with commas between as a tuple. -/
def expressions : Nat → Bool → List Lexeme → Except Failure (Expr × List Lexeme)
  | 0, _, _ => .error .malformed
  | fuel + 1, mayTrail, lexemes => do
    let (first, lexemes) ← test fuel lexemes
    match lexemes with
    | .comma :: _ =>
      let (elements, lexemes) ← moreExpressions fuel mayTrail [first] lexemes
      return (.tuple elements, lexemes)
    | _ => return (first, lexemes)

/-- Reads expressions, each behind a comma; `mayTrail` allows a comma behind the last. -/
def moreExpressions :
    Nat → Bool → List Expr → List Lexeme → Except Failure (List Expr × List Lexeme)
  | 0, _, _, _ => .error .malformed
  | fuel + 1, mayTrail, seen, lexemes =>
    match lexemes with
    | .comma :: lexemes =>
      if endsList lexemes then
        if mayTrail then .ok (seen.reverse, lexemes) else .error .malformed
      else do
        let (value, lexemes) ← test fuel lexemes
        moreExpressions fuel mayTrail (value :: seen) lexemes
    | _ => .ok (seen.reverse, lexemes)

end

/-- Reads a statement.  Only a name can be assigned. -/
def statement (fuel : Nat) (lexemes : List Lexeme) : Except Failure (Statement × List Lexeme) :=
  match lexemes with
  | .passWord :: lexemes => .ok (.pass, lexemes)
  | _ => do
    let (left, lexemes) ← expressions fuel false lexemes
    match lexemes with
    | .assign :: lexemes =>
      let (value, lexemes) ← expressions fuel false lexemes
      match left.unparen with
      | .name name => return (.assign name value, lexemes)
      | _ => .error .malformed
    | _ => return (.expression left, lexemes)

/-- Reads statements divided by semicolons and newlines. -/
def statements : Nat → List Lexeme → Except Failure (List Statement)
  | 0, _ => .error .malformed
  | fuel + 1, lexemes =>
    match lexemes with
    | [] => .ok []
    | .newline :: lexemes => statements fuel lexemes
    | _ => do
      let (first, lexemes) ← statement fuel lexemes
      match lexemes with
      | [] => return [first]
      | .semicolon :: lexemes => return first :: (← statements fuel lexemes)
      | .newline :: lexemes => return first :: (← statements fuel lexemes)
      | _ => .error .malformed

/-- Reads the statements of a text. -/
def program (text : Bytes) : Except Failure (List Statement) := do
  let lexemes ← Lexeme.scan text
  statements (16 * (lexemes.length + 2)) lexemes

end Grammar

end Rpn.Constant
