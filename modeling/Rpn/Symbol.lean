import Rpn.Feed
import Rpn.Literal
import Rpn.Operator
import Rpn.Register

/-!
# Symbols

What a token means.  The three tables are disjoint: no mnemonic is a literal and no operator
is a register, so the order in which they are tried does not show.

* `Symbol.classify` finds the meaning of a token;
* `Symbol.vocabulary` delivers every mnemonic.
-/

namespace Rpn

/-- The meaning of a token. -/
inductive Symbol where
  | operator (op : Operator)
  | register (r : Register)
  | literal (value : Int32)
  | unknown
  deriving DecidableEq, Repr

namespace Symbol

/-- Finds the meaning of a token. -/
def classify (token : Bytes) : Symbol :=
  match Operator.ofMnemonic? token with
  | some op => .operator op
  | none =>
    match Register.ofMnemonic? token with
    | some r => .register r
    | none =>
      match Literal.parse? token with
      | some value => .literal value
      | none => .unknown

/-- The number of a symbol's kind. -/
def kindCode : Symbol → Int64
  | .unknown => 0
  | .operator _ => 1
  | .register _ => 2
  | .literal _ => 3

/-- The names of the kinds, by number. -/
def kindNames : List Bytes :=
  [ascii "unknown", ascii "operator", ascii "register", ascii "literal"]

/-- The name of a kind's number. -/
def kindName (n : Int64) : Bytes :=
  if 0 ≤ n ∧ n < 4 then kindNames.getD n.toInt.toNat []
  else ascii "Kind(" ++ decimal n.toInt ++ ascii ")"

/-- The number of the operator that a symbol is, if it is one. -/
def operatorCode : Symbol → Int64
  | .operator op => op.code
  | _ => Operator.noCode

/-- The number of the register that a symbol is, if it is one. -/
def registerCode : Symbol → Int64
  | .register r => r.code
  | _ => Register.noCode

/-- The value of a literal, and 0 for any other symbol. -/
def value : Symbol → Int32
  | .literal value => value
  | _ => 0

/-- Every mnemonic: those of the operators, then those of the registers. -/
def mnemonics : List Bytes :=
  Operator.names ++ Register.names

/-- Delivers every mnemonic, the operators' before the registers'. -/
def vocabulary : Feed Bytes :=
  Feed.concat [Feed.ofList Operator.names, Feed.ofList Register.names]

theorem delivers_vocabulary : vocabulary.Delivers mnemonics :=
  Feed.delivers_concat_cons (Feed.delivers_ofList _)
    (Feed.delivers_concat_cons (Feed.delivers_ofList _) Feed.delivers_concat_nil)

theorem classify_operator (op : Operator) : classify op.mnemonic = .operator op := by
  simp [classify, Operator.ofMnemonic?_mnemonic]

theorem classify_register (r : Register) : classify r.mnemonic = .register r := by
  cases r <;> decide

theorem classify_eq_operator_iff {token : Bytes} {op : Operator} :
    classify token = .operator op ↔ token = op.mnemonic := by
  constructor
  · intro kind
    rw [classify] at kind
    split at kind
    · next found =>
      cases kind
      exact Operator.ofMnemonic?_eq_some_iff.mp found
    · split at kind
      · cases kind
      · split at kind <;> cases kind
  · rintro rfl
    exact classify_operator op

theorem classify_eq_register_iff {token : Bytes} {r : Register} :
    classify token = .register r ↔ token = r.mnemonic := by
  constructor
  · intro kind
    rw [classify] at kind
    split at kind
    · cases kind
    · split at kind
      · next found =>
        cases kind
        exact Register.ofMnemonic?_eq_some_iff.mp found
      · split at kind <;> cases kind
  · rintro rfl
    exact classify_register r

theorem classify_eq_unknown_iff {token : Bytes} :
    classify token = .unknown ↔ Operator.ofMnemonic? token = none ∧
      Register.ofMnemonic? token = none ∧ Literal.parse? token = none := by
  rw [classify]
  cases Operator.ofMnemonic? token with
  | some op => simp
  | none =>
    cases Register.ofMnemonic? token with
    | some r => simp
    | none => cases Literal.parse? token <;> simp

/-- No mnemonic is a literal. -/
theorem parse?_mnemonics : ∀ token ∈ mnemonics, Literal.parse? token = none := by
  decide

theorem mnemonics_nodup : mnemonics.Nodup := by
  decide

end Symbol

end Rpn
