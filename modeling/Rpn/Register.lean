import Rpn.Text.Decimal

/-!
# Registers

Nine registers hold a word each.  Outside the library a register goes by its number in the
table; number 9 is the name of none, and marks a value that was not read from a register.

* `Registers.get` and `Registers.set` read and write the register file;
* `get_set` says what a write does to every register.
-/

namespace Rpn

/-- A register. -/
inductive Register where
  | eax
  | ebx
  | ecx
  | edx
  | esi
  | edi
  | eip
  | esp
  | ebp
  deriving DecidableEq, Repr

namespace Register

/-- The number of registers. -/
abbrev count : Nat := 9

/-- The registers in table order. -/
def all : List Register :=
  [.eax, .ebx, .ecx, .edx, .esi, .edi, .eip, .esp, .ebp]

/-- The text of a register in an expression. -/
def mnemonic : Register → Bytes
  | .eax => ascii "eax"
  | .ebx => ascii "ebx"
  | .ecx => ascii "ecx"
  | .edx => ascii "edx"
  | .esi => ascii "esi"
  | .edi => ascii "edi"
  | .eip => ascii "eip"
  | .esp => ascii "esp"
  | .ebp => ascii "ebp"

/-- The place of a register in the register file. -/
def index : Register → Fin count
  | .eax => 0
  | .ebx => 1
  | .ecx => 2
  | .edx => 3
  | .esi => 4
  | .edi => 5
  | .eip => 6
  | .esp => 7
  | .ebp => 8

/-- The number of a register. -/
def code (r : Register) : Int64 :=
  Int64.ofNat r.index.val

/-- The number that stands for no register. -/
def noCode : Int64 := 9

/-- The register with a number. -/
def ofCode? (n : Int64) : Option Register :=
  all.find? fun r => r.code = n

/-- The register with a mnemonic. -/
def ofMnemonic? (token : Bytes) : Option Register :=
  all.find? fun r => r.mnemonic = token

/-- The number of the register with a mnemonic, and `noCode` for any other text. -/
def lookup (token : Bytes) : Int64 :=
  ((ofMnemonic? token).map code).getD noCode

/-- The name of a number: a mnemonic where there is one. -/
def name (n : Int64) : Bytes :=
  match ofCode? n with
  | some r => r.mnemonic
  | none =>
    if n = noCode then ascii "invalid"
    else ascii "Register(" ++ decimal n.toInt ++ ascii ")"

/-- The mnemonics in table order. -/
def names : List Bytes :=
  all.map mnemonic

theorem mem_all (r : Register) : r ∈ all := by
  cases r <;> decide

theorem ofMnemonic?_mnemonic (r : Register) : ofMnemonic? r.mnemonic = some r := by
  cases r <;> decide

theorem ofCode?_code (r : Register) : ofCode? r.code = some r := by
  cases r <;> decide

theorem ofMnemonic?_eq_some_iff {token : Bytes} {r : Register} :
    ofMnemonic? token = some r ↔ token = r.mnemonic := by
  constructor
  · intro h
    have found := List.find?_some h
    exact (of_decide_eq_true found).symm
  · rintro rfl
    exact ofMnemonic?_mnemonic r

theorem index_injective {r r' : Register} (h : r.index = r'.index) : r = r' := by
  have key := congrArg (fun i : Fin count => ofCode? (Int64.ofNat i.val)) h
  have hr : ofCode? r.code = ofCode? r'.code := key
  rw [ofCode?_code, ofCode?_code] at hr
  exact Option.some.inj hr

end Register

/-- The register file. -/
structure Registers where
  cells : Vector Int32 Register.count := Vector.replicate Register.count 0
  deriving DecidableEq, Repr

namespace Registers

/-- The word in a register. -/
def get (file : Registers) (r : Register) : Int32 :=
  file.cells[r.index]

/-- Writes a register. -/
def set (file : Registers) (r : Register) (value : Int32) : Registers where
  cells := file.cells.set r.index value

/-- The words of the registers in table order. -/
def values (file : Registers) : List Int32 :=
  file.cells.toList

/-- The registers and their words in table order. -/
def entries (file : Registers) : List (Register × Int32) :=
  Register.all.map fun r => (r, file.get r)

theorem get_set (file : Registers) (r r' : Register) (value : Int32) :
    (file.set r value).get r' = if r' = r then value else file.get r' := by
  by_cases h : r' = r
  · subst h
    simp [get, set]
  · have hi : (r.index : Nat) ≠ r'.index := fun e => h (Register.index_injective (Fin.ext e)).symm
    simp [get, set, h, Vector.getElem_set_ne _ _ hi]

@[simp] theorem get_zero (r : Register) : ({} : Registers).get r = 0 := by
  simp [get]

end Registers

end Rpn
