import Rpn.Proofs.Constant.Parsing

/-!
# Formulas compiled and run

The code of a formula stands in one block, so that neither branches nor the places of blocks matter.

* `Constant.Emits` — a step of the compiler that adds given instructions and changes nothing else of
  account;
* `Constant.assigns_of_emits` — a text is run to the integer that the code of its expression puts on
  the stack;
* `Formula.code` — the code of a formula, and `Formula.compiles`, that the compiler emits it;
* `Formula.pushes` — running the code of a formula puts its value on the stack;
* `Constant.exactArithmetic_interpreter` — so the interpreter computes formulas exactly.
-/

namespace Rpn

namespace Constant

/-! ## Steps of the compiler -/

/-- A step of the compiler that answers `a` and adds `code` to the block under construction, and
changes nothing else but the places of constants and names. -/
def Emits {α : Type} (action : Emit α) (code : List Instruction) (a : α) : Prop :=
  ∀ b : Builder, ∃ b' : Builder, action.run b = .ok (a, b') ∧
    b'.body = code.reverse ++ b.body ∧ b'.blocks = b.blocks ∧ b'.current = b.current ∧
    b'.slots = b.slots

section Emits

variable {α β : Type}

theorem Emits.pure (a : α) : Emits (Pure.pure a) [] a :=
  fun b => ⟨b, rfl, rfl, rfl, rfl, rfl⟩

theorem Emits.bind {x : Emit α} {f : α → Emit β} {first second : List Instruction} {a : α} {c : β}
    (hx : Emits x first a) (hf : Emits (f a) second c) :
    Emits (x >>= f) (first ++ second) c := by
  intro b
  obtain ⟨b₁, run₁, body₁, blocks₁, current₁, slots₁⟩ := hx b
  obtain ⟨b₂, run₂, body₂, blocks₂, current₂, slots₂⟩ := hf b₁
  refine ⟨b₂, ?_, ?_, blocks₂.trans blocks₁, current₂.trans current₁, slots₂.trans slots₁⟩
  · rw [StateT.run_bind, run₁]
    exact run₂
  · rw [body₂, body₁, List.reverse_append, List.append_assoc]

theorem Emits.seq {x : Emit Unit} {y : Emit β} {first second : List Instruction} {c : β}
    (hx : Emits x first ()) (hy : Emits y second c) : Emits (do x; y) (first ++ second) c :=
  hx.bind hy

/-- Nothing is left to do for a value that stays on the stack. -/
theorem Emits.settle {x : Emit Unit} {code : List Instruction} (h : Emits x code ()) :
    Emits (do x; Constant.settle .value) code () := by
  have both := h.seq (Emits.pure ())
  rw [List.append_nil] at both
  exact both

theorem emits_emitSized (instruction : Instruction) (bytes : Nat) :
    Emits (emitSized instruction bytes) [instruction] () :=
  fun _ => ⟨_, rfl, rfl, rfl, rfl, rfl⟩

theorem emits_emitInteger (n : Nat) : Emits (emitInteger n) [.push (.int n)] () :=
  fun _ => ⟨_, rfl, rfl, rfl, rfl, rfl⟩

/-- The place of a name is all that looking it up can change. -/
theorem run_nameIndex (name : Bytes) (b : Builder) :
    ∃ k names, (nameIndex name).run b = .ok (k, { b with names }) := by
  cases known : b.names[name]? with
  | none =>
    refine ⟨b.names.size, b.names.insert name b.names.size, ?_⟩
    simp [nameIndex, known, modifyGet, MonadStateOf.modifyGet, StateT.modifyGet, StateT.run,
      Pure.pure, Except.pure]
  | some k =>
    refine ⟨k, b.names, ?_⟩
    simp [nameIndex, known, modifyGet, MonadStateOf.modifyGet, StateT.modifyGet, StateT.run,
      Pure.pure, Except.pure]

theorem emits_named (v : Value) (name : Bytes) :
    Emits (do emitWith (.push v) (← nameIndex name)) [.push v] () := by
  intro b
  obtain ⟨k, names, index⟩ := run_nameIndex name b
  rw [StateT.run_bind, index]
  exact ⟨_, rfl, rfl, rfl, rfl, rfl⟩

end Emits

/-- The names of a program that assigns one formula: the constants, behind the name that is
assigned. -/
def formulaScope (constant? : Bytes → Option Int) : Scope :=
  { globals := (∅ : Table Bytes Nat).insert resultName 0, constant? }

theorem emits_emitName {constant? : Bytes → Option Int} {name : Bytes} {n : Int}
    (free : name ≠ resultName) (known : constant? name = some n) :
    Emits ((formulaScope constant?).emitName name) [.push (.int n)] () := by
  have noLocal : (formulaScope constant?).locals[name]? = none := by
    simp [formulaScope]
  have noGlobal : (formulaScope constant?).globals[name]? = none := by
    rw [formulaScope, Table.getElem?_put, if_neg free.symm]
    simp
  have value : (formulaScope constant?).constant? name = some n := known
  simp only [Scope.emitName, noLocal, noGlobal, value]
  exact emits_named (.int n) name

end Constant

open Constant

variable {constant? : Bytes → Option Int}

/-- The code of a leaf; the sign of a number is an operator. -/
def Leaf.code : Leaf IsIdentifier constant? → List Instruction
  | .constant value =>
    if value.toInt < 0 then [.push (.int value.toInt.natAbs), .monadic .minus]
    else [.push (.int value.toInt.natAbs)]
  | .named _ value .. => [.push (.int value)]

/-- The code of a formula. -/
def Formula.code : Formula IsIdentifier constant? → List Instruction
  | .leaf a => a.code
  | .node op left right => left.code ++ right.code ++ [.dyadic op.dyadic]

/-! ## The compiler on formulas -/

namespace Constant

/-- What the compiler makes of an expression without brackets around it, by itself and as a term of
a sum. -/
structure Compiles (scope : Scope) (e : Expr) (code : List Instruction) : Prop where
  whole : Emits (e.emit scope .value) code ()
  /-- The expression is not joined with other terms. -/
  term : ∀ earlier, emitSum scope (e :: earlier) = (do
    let s ← emitSum scope earlier
    let s ← s.close
    e.emit scope .value
    s.operand)
  /-- The terms of a sum can be terms of a longer one. -/
  terms : ∀ terms, e = .sum terms → Emits (emitSum scope terms) code ⟨true, .closed⟩

variable {scope : Scope} {left right : Expr} {first second : List Instruction}

/-- Brackets around an expression that has none around it change nothing. -/
theorem Compiles.paren {e : Expr} {code : List Instruction} (h : Compiles scope e code)
    (bare : e.unparen = e) :
    Compiles scope (Expr.paren e).unparen code ∧
      Emits ((Expr.paren e).emit scope .value) code () := by
  refine ⟨?_, h.whole.settle⟩
  rw [Expr.unparen, bare]
  exact h

theorem compiles_dyadic {op : Arithmetic} (other : op ≠ .add)
    (hl : Emits (left.emit scope .value) first ())
    (hr : Emits (right.emit scope .value) second ()) :
    Compiles scope (.dyadic op.dyadic left right) (first ++ second ++ [.dyadic op.dyadic]) := by
  have whole := hl.seq (hr.seq (emits_emitSized (.dyadic op.dyadic) 1).settle)
  rw [← List.append_assoc] at whole
  cases op with
  | add => exact absurd rfl other
  | sub => exact ⟨whole, fun _ => rfl, by simp⟩
  | mul => exact ⟨whole, fun _ => rfl, by simp⟩
  | and => exact ⟨whole, fun _ => rfl, by simp⟩
  | or => exact ⟨whole, fun _ => rfl, by simp⟩

/-- The terms that the left operand of a sum contributes: those of a sum, or itself. -/
theorem Compiles.exists_plus (hl : Compiles scope left.unparen first) (right : Expr) :
    ∃ terms, left.plus right = .sum (right.unparen :: terms) ∧
      Emits (emitSum scope terms) first ⟨true, .closed⟩ := by
  by_cases sum : ∃ terms, left.unparen = .sum terms
  · obtain ⟨terms, eq⟩ := sum
    exact ⟨terms, by rw [Expr.plus, eq], hl.terms terms eq⟩
  · refine ⟨[left.unparen], ?_, ?_⟩
    · rw [Expr.plus]
      split
      · next terms eq => exact absurd ⟨terms, eq⟩ sum
      · rfl
    · have single := hl.whole.seq (Emits.pure (⟨true, .closed⟩ : Summation))
      rw [List.append_nil] at single
      rw [hl.term []]
      exact single

theorem compiles_plus (hl : Compiles scope left.unparen first)
    (hr : Compiles scope right.unparen second) :
    Compiles scope (left.plus right) (first ++ second ++ [.dyadic .plus]) := by
  obtain ⟨terms, eq, earlier⟩ := hl.exists_plus right
  have added : Emits (Summation.operand ⟨true, .closed⟩) [.dyadic .plus] ⟨true, .closed⟩ :=
    (emits_emitSized (.dyadic .plus) 1).seq (Emits.pure (⟨true, .closed⟩ : Summation))
  have sum : Emits (emitSum scope (right.unparen :: terms)) (first ++ second ++ [.dyadic .plus])
      ⟨true, .closed⟩ := by
    rw [hr.term, List.append_assoc]
    exact earlier.bind (hr.whole.seq added)
  rw [eq]
  refine ⟨?_, fun _ => rfl, ?_⟩
  · have whole : Emits (emitSum scope (right.unparen :: terms) >>= fun s => s.close >>= fun _ =>
        settle .value) (first ++ second ++ [.dyadic .plus] ++ []) () :=
      sum.bind (Emits.pure ())
    rw [List.append_nil] at whole
    exact whole
  · intro terms' same
    obtain rfl : right.unparen :: terms = terms' := Expr.sum.inj same
    exact sum

/-- A program that assigns an expression without branches is compiled to one block. -/
theorem compile_assignment {constant? : Bytes → Option Int} {e : Expr} {code : List Instruction}
    (emits : Emits (e.emit (formulaScope constant?) .value) code ()) :
    ∃ size, compile constant? [.assign resultName e] =
      .ok (#[⟨code ++ [.storeGlobal resultName], size, .finish⟩], 0) := by
  have names : assignedNames [.assign resultName e] =
      .ok ((∅ : Table Bytes Nat).insert resultName 0) := by
    simp [assignedNames, Constant.Statement.assigned?]
  have stored : Emits ([Constant.Statement.assign resultName e].forM
      (·.emit (formulaScope constant?))) (code ++ [.storeGlobal resultName] ++ []) () :=
    (emits.seq (emits_emitSized (.storeGlobal resultName) _)).seq (Emits.pure ())
  rw [List.append_nil] at stored
  obtain ⟨b, run, body, blocks, current, slots⟩ := stored {}
  refine ⟨b.size, ?_⟩
  rw [compile, names]
  show (StateT.run ([Constant.Statement.assign resultName e].forM
      (·.emit (formulaScope constant?)) >>= fun _ => leave .finish) {} >>=
      fun result => Except.ok (result.2.blocks, result.2.slots)) = _
  rw [StateT.run_bind, run]
  show Except.ok (b.blocks.setIfInBounds b.current ⟨b.body.reverse, b.size, .finish⟩, b.slots) = _
  rw [body, blocks, current, slots]
  simp

end Constant

theorem Leaf.compiles (a : Leaf IsIdentifier constant?) :
    Compiles (formulaScope constant?) a.expr a.code := by
  cases a with
  | constant value =>
    rw [expr, code]
    split
    · have whole := (emits_emitInteger value.toInt.natAbs).settle.seq
        (emits_emitSized (.monadic .minus) 1).settle
      exact ⟨whole, fun _ => rfl, by simp⟩
    · exact ⟨(emits_emitInteger _).settle, fun _ => rfl, by simp⟩
  | named name value identifier free known =>
    rw [expr, code]
    exact ⟨(emits_emitName free known).settle, fun _ => rfl, by simp⟩

/-- The compiler makes the code of a formula of its expression, with and without brackets. -/
theorem Formula.compiles (t : Formula IsIdentifier constant?) :
    Compiles (formulaScope constant?) t.expr.unparen t.code ∧
      Emits (t.expr.emit (formulaScope constant?) .value) t.code () := by
  induction t with
  | leaf a =>
    have bare : a.expr.unparen = a.expr := by
      cases a with
      | constant value =>
        rw [Leaf.expr]
        split <;> rfl
      | named name => rfl
    rw [expr, bare]
    exact ⟨a.compiles, a.compiles.whole⟩
  | node op left right ihl ihr =>
    rw [expr, Formula.code]
    by_cases sum : op = .add
    · subst sum
      refine (compiles_plus ihl.1 ihr.1).paren ?_
      obtain ⟨terms, eq, -⟩ := ihl.1.exists_plus right.expr
      show (left.expr.plus right.expr).unparen = left.expr.plus right.expr
      rw [eq, Expr.unparen]
      simp
    · have combined : Expr.combine op.dyadic left.expr right.expr =
          .dyadic op.dyadic left.expr right.expr := by
        cases op <;> first | exact absurd rfl sum | rfl
      rw [combined]
      exact (compiles_dyadic sum ihl.2 ihr.2).paren rfl

/-! ## Code run -/

namespace Constant

theorem Frame.execute_eq {frame : Frame} {instruction : Instruction}
    (h : frame.steps + instruction.steps < frame.limit) :
    frame.execute instruction =
      Frame.effect { frame with steps := frame.steps + instruction.steps } instruction := by
  rw [execute, spend, if_neg (Nat.not_le.mpr h)]
  rfl

/-- Instructions that take one step each and put a value on the stack. -/
def Pushes (code : List Instruction) (v : Value) : Prop :=
  ∀ frame : Frame, frame.steps + code.length < frame.limit →
    code.foldlM Frame.execute frame =
      .ok { frame with steps := frame.steps + code.length, values := v :: frame.values }

theorem pushes_push (v : Value) : Pushes [.push v] v := by
  intro frame enough
  show (frame.execute (.push v) >>= pure) = _
  rw [bind_pure, Frame.execute_eq enough]
  rfl

/-- An operator in front of an operand takes its value. -/
theorem Pushes.monadic {code : List Instruction} {op : Monadic} {x v : Value} (h : Pushes code x)
    (applied : op.apply x = .ok v) : Pushes (code ++ [.monadic op]) v := by
  intro frame enough
  rw [List.length_append, List.length_singleton] at enough ⊢
  rw [List.foldlM_append, h frame (by omega)]
  show (Frame.execute _ (.monadic op) >>= pure) = _
  rw [bind_pure, Frame.execute_eq enough]
  show (op.apply x >>= _) = _
  rw [applied]
  rfl

theorem Pushes.minus {code : List Instruction} {n : Int} (h : Pushes code (.int n)) :
    Pushes (code ++ [.monadic .minus]) (.int (-n)) :=
  h.monadic rfl

theorem Integer.without_eq_ldiff (m n : Nat) : without m n = m.ldiff n := by
  apply Nat.eq_of_testBit_eq
  intro i
  rw [without, Nat.testBit_xor, Nat.testBit_and, Nat.testBit_ldiff]
  cases m.testBit i <;> cases n.testBit i <;> rfl

theorem Integer.bitAnd_eq_land (m n : Int) : bitAnd m n = m.land n := by
  cases m <;> cases n <;> simp [bitAnd, Int.land, without_eq_ldiff]

theorem Integer.bitOr_eq_lor (m n : Int) : bitOr m n = m.lor n := by
  cases m <;> cases n <;> simp [bitOr, Int.lor, without_eq_ldiff]

/-- The operators of formulas are exact on integers. -/
theorem apply_dyadic (op : Arithmetic) (m n : Int) :
    op.dyadic.apply (.int m) (.int n) = .ok (.int (op.exact m n)) := by
  cases op with
  | add => rfl
  | sub => rfl
  | mul => rfl
  | and => exact congrArg (fun v => Except.ok (Value.int v)) (Integer.bitAnd_eq_land m n)
  | or => exact congrArg (fun v => Except.ok (Value.int v)) (Integer.bitOr_eq_lor m n)

/-- An operator takes the values of its operands, of which the left one lies below. -/
theorem Pushes.dyadic {op : Arithmetic} {first second : List Instruction} {m n : Int}
    (hm : Pushes first (.int m)) (hn : Pushes second (.int n)) :
    Pushes (first ++ second ++ [.dyadic op.dyadic]) (.int (op.exact m n)) := by
  intro frame enough
  have one : (Instruction.dyadic op.dyadic).steps = 1 := by cases op <;> rfl
  simp only [List.length_append, List.length_singleton] at enough ⊢
  have operands : (first ++ second).foldlM Frame.execute frame =
      .ok { frame with
        steps := frame.steps + first.length + second.length
        values := .int n :: .int m :: frame.values } := by
    rw [List.foldlM_append, hm frame (by omega)]
    exact hn _ (by show frame.steps + first.length + second.length < frame.limit; omega)
  rw [List.foldlM_append, operands]
  show (Frame.execute _ (.dyadic op.dyadic) >>= pure) = _
  rw [bind_pure, Frame.execute_eq (by rw [one]; show _ + _ + _ + 1 < frame.limit; omega), one]
  show (op.dyadic.apply (.int m) (.int n) >>= _) = _
  have steps : frame.steps + (first.length + second.length + 1) =
      frame.steps + first.length + second.length + 1 := by omega
  rw [apply_dyadic, steps]
  rfl

/-- Code in one block that puts a value on the stack and stores it is run to that value. -/
theorem run_stored {code : List Instruction} {v : Value} (h : Pushes code v) {limit : Nat}
    (enough : code.length + 3 < limit) (name : Bytes) (size : Nat) :
    ∃ frame, (Code.ofBlocks #[⟨code ++ [.storeGlobal name], size, .finish⟩]).run limit 0 =
        .ok frame ∧ frame.globals[name]? = some v := by
  obtain ⟨fuel, rfl⟩ : ∃ fuel, limit = fuel + 1 := ⟨limit - 1, by omega⟩
  let start : Frame := { limit := fuel + 1, slots := Array.replicate 0 none }
  have pushed := h start (by show 0 + code.length < fuel + 1; omega)
  have stored : (code ++ [Instruction.storeGlobal name]).foldlM Frame.execute start =
      .ok { start with
        steps := 0 + code.length + 1
        globals := (∅ : Table Bytes Value).insert name v } := by
    rw [List.foldlM_append, pushed]
    show (Frame.execute _ (.storeGlobal name) >>= pure) = _
    rw [bind_pure, Frame.execute_eq (by show 0 + code.length + 1 < fuel + 1; omega)]
    rfl
  refine ⟨{ start with
    steps := 0 + code.length + 1 + 2
    globals := (∅ : Table Bytes Value).insert name v }, ?_, ?_⟩
  · have block : (Code.ofBlocks #[⟨code ++ [.storeGlobal name], size, .finish⟩]).blocks.getD 0 {} =
        ⟨code ++ [.storeGlobal name], size, .finish⟩ := by
      simp [Code.ofBlocks, Exit.map]
    rw [Code.run, Code.runFrom, block]
    show ((code ++ [Instruction.storeGlobal name]).foldlM Frame.execute start >>=
      fun frame => frame.spend 2) = _
    rw [stored]
    show (if fuel + 1 ≤ 0 + code.length + 1 + 2 then _ else _) = _
    rw [if_neg (by omega)]
  · show ((∅ : Table Bytes Value).insert name v)[name]? = some v
    rw [Table.getElem?_put, if_pos rfl]

/-- A constant expression is run to the integer that the code of its expression puts on the
stack. -/
theorem assigns_of_emits {constant? : Bytes → Option Int} {text : Bytes} {e : Expr}
    {code : List Instruction} {n : Int} {limit : Nat}
    (read : Grammar.program (assignment text) = .ok [.assign resultName e])
    (emits : Emits (e.emit (formulaScope constant?) .value) code ()) (pushes : Pushes code (.int n))
    (enough : code.length + 3 < limit) : interpreter.Assigns limit constant? text n := by
  obtain ⟨size, compiled⟩ := compile_assignment emits
  obtain ⟨frame, run, found⟩ := run_stored pushes enough resultName size
  refine ⟨fun name => frame.globals[name]?.map Value.global, ?_, ?_⟩
  · show (Grammar.program (assignment text) >>= _) = _
    rw [read]
    show (compile _ [.assign resultName e] >>= _) = _
    rw [compiled]
    show ((Code.ofBlocks _).run limit 0 >>= _) = _
    rw [run]
    rfl
  · show frame.globals[resultName]?.map Value.global = _
    rw [found]
    rfl

end Constant

theorem Leaf.pushes (a : Leaf IsIdentifier constant?) : Pushes a.code (.int a.value) := by
  cases a with
  | constant value =>
    rw [code, Leaf.value]
    split
    · next negative =>
      have value_eq : -(value.toInt.natAbs : Int) = value.toInt := by omega
      have pushed := (pushes_push (.int value.toInt.natAbs)).minus
      rw [value_eq] at pushed
      exact pushed
    · next positive =>
      have value_eq : (value.toInt.natAbs : Int) = value.toInt := by omega
      rw [value_eq]
      exact pushes_push _
  | named _ value => exact pushes_push _

/-- **Running the code of a formula puts its value on the stack.** -/
theorem Formula.pushes (t : Formula IsIdentifier constant?) : Pushes t.code (.int t.value) := by
  induction t with
  | leaf a => exact a.pushes
  | node op left right ihl ihr => exact ihl.dyadic ihr

theorem Formula.length_code_le (t : Formula IsIdentifier constant?) : t.code.length ≤ 2 * t.size := by
  induction t with
  | leaf a =>
    cases a with
    | constant value =>
      rw [Formula.code, Leaf.code]
      split <;> simp [size]
    | named => simp [Formula.code, Leaf.code, size]
  | node op left right ihl ihr =>
    simp only [Formula.code, size, List.length_append, List.length_singleton]
    omega

/-- **The interpreter computes formulas exactly.** -/
theorem Constant.exactArithmetic_interpreter : interpreter.ExactArithmetic IsIdentifier where
  name_ne_nil := by
    intro name identifier
    obtain ⟨b, rest, rfl, -⟩ := identifier.exists_cons
    exact List.cons_ne_nil b rest
  name_bytes := fun _ identifier _ mem => identifier.isNameByte mem
  formula := by
    intro constant? t limit enough
    have length := t.length_code_le
    exact assigns_of_emits t.program_assignment t.compiles.2 t.pushes (by omega)

end Rpn
