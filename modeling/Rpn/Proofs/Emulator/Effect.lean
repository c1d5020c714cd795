import Rpn.Emulator
import Rpn.Proofs.Machine.Effect

/-!
# What a line does to an emulator

* `Setting` — what a line finds, and `Emulator.setting` what the next line of an emulator does;
* `Emulator.Refusal` — why a line is refused before it changes anything;
* `Emulator.LineEffect` — everything that carrying out a line can do, and `HasTable.lineEffect`
  for an emulator that has a table of equates;
* `Emulator.Reachable` — the emulators that loading listings, ticks, runs and resets lead to,
  with `Reachable.hasTable`.
-/

namespace Rpn

/-- What a line finds: a machine with nothing on its stacks, and an expander. -/
structure Setting where
  machine : Machine
  expander : Expander

/-- The text that an expression or the value of a directive expands to. -/
def Setting.expansion [Constant.Language] (s : Setting) (text : Bytes) : Except Error Bytes :=
  Expander.expandWith s.expander.table s.machine.delimiter text

namespace Emulator

/-- What the next line finds. -/
def setting (emu : Emulator) : Setting :=
  ⟨emu.machine.clearStacks, emu.expander⟩

/-- Why a statement is refused before it changes anything. -/
inductive Refusal [Constant.Language] (emu : Emulator) : Statement → Error → Prop
  /-- The name of an equate is taken. -/
  | duplicate {name : Bytes} {texts : List Bytes} :
      emu.expander.table.contains name = true →
      Refusal emu (.directive (ascii ".equ") (name :: texts)) .equateDuplicate
  /-- The value of an equate does not expand. -/
  | equate {name text : Bytes} {rest : List Bytes} {e : Error} :
      emu.expander.table.contains name = false → emu.setting.expansion text = .error e →
      Refusal emu (.directive (ascii ".equ") (name :: text :: rest)) e
  /-- There is no such register. -/
  | noRegister {name : Bytes} {texts : List Bytes} :
      Register.ofMnemonic? name = none →
      Refusal emu (.directive (ascii ".set") (name :: texts)) .registerInvalid
  /-- The value for a register does not expand. -/
  | set {name text : Bytes} {rest : List Bytes} {r : Register} {e : Error} :
      Register.ofMnemonic? name = some r → emu.setting.expansion text = .error e →
      Refusal emu (.directive (ascii ".set") (name :: text :: rest)) e
  /-- The value for a register is no literal. -/
  | notNumber {name text value : Bytes} {rest : List Bytes} {r : Register} :
      Register.ofMnemonic? name = some r → emu.setting.expansion text = .ok value →
      Literal.parse? value = none →
      Refusal emu (.directive (ascii ".set") (name :: text :: rest)) (.notNumber value)
  /-- An expression does not expand. -/
  | expression {text : Bytes} {e : Error} :
      emu.setting.expansion text = .error e → Refusal emu (.expression text) e
  /-- A directive lacks an argument. -/
  | form {name : Bytes} {arguments : List Bytes} :
      arguments.length < 2 → Refusal emu (.directive name arguments) .directiveForm
  /-- There is no such directive. -/
  | unknown {name : Bytes} {arguments : List Bytes} :
      name ≠ ascii ".equ" → name ≠ ascii ".set" →
      Refusal emu (.directive name arguments) .directiveInvalid

/-- Everything that carrying out a line can do to an emulator, with its answer. -/
inductive LineEffect [Constant.Language] (emu : Emulator) (line : Line) :
    Emulator → Except Error Unit → Prop
  | refused {e : Error} :
      Refusal emu line.statement e → LineEffect emu line emu (.error e)
  /-- An expression fails on the stacks, and leaves them as it failed. -/
  | failed {text expr : Bytes} {machine : Machine} {e : Error} :
      line.statement = .expression text → emu.setting.expansion text = .ok expr →
      emu.machine.clearStacks.eval expr = (machine, .error e) →
      LineEffect emu line { emu with machine } (.error e)
  /-- A name is given to a text. -/
  | equated {name text value : Bytes} {rest : List Bytes} :
      line.statement = .directive (ascii ".equ") (name :: text :: rest) →
      emu.expander.table.contains name = false → emu.setting.expansion text = .ok value →
      LineEffect emu line { emu with expander := emu.expander.equate name value } (.ok ())
  /-- A register is set. -/
  | assigned {name text value : Bytes} {rest : List Bytes} {r : Register} {word : Int32} :
      line.statement = .directive (ascii ".set") (name :: text :: rest) →
      Register.ofMnemonic? name = some r → emu.setting.expansion text = .ok value →
      Literal.parse? value = some word →
      LineEffect emu line
        { emu with machine := { emu.machine with registers := emu.machine.registers.set r word } }
        (.ok ())
  /-- The value of an expression is recorded. -/
  | recorded {text expr : Bytes} {machine : Machine} {value : Int32} :
      line.statement = .expression text → emu.setting.expansion text = .ok expr →
      emu.machine.clearStacks.eval expr = (machine, .ok value) →
      LineEffect emu line
        { emu with machine, results := emu.results.insert line.number value } (.ok ())

/-! ## Carrying out a line -/

/-- An emulator that has a table of equates; every emulator has one from its first reset on. -/
def HasTable (emu : Emulator) : Prop :=
  emu.expander.equates.isSome = true

section Execute

variable [Constant.Language] {emu : Emulator}

theorem HasTable.expand_eq (h : emu.HasTable) (text : Bytes) :
    emu.expander.expand emu.machine.delimiter text = (emu.expander, emu.setting.expansion text) := by
  have table : emu.expander.equates.isSome = true := h
  rw [Expander.expand, Expander.ready, if_pos table]
  rfl

theorem HasTable.expand_of_eq (h : emu.HasTable) {text : Bytes} {answer : Except Error Bytes}
    (expanded : emu.setting.expansion text = answer) :
    emu.expander.expand emu.machine.delimiter text = (emu.expander, answer) := by
  rw [h.expand_eq, expanded]

theorem HasTable.lineEffect_equateDirective (h : emu.HasTable) {line : Line} {arguments : List Bytes}
    (eq : line.statement = .directive (ascii ".equ") arguments) :
    LineEffect emu line (emu.equateDirective arguments).1 (emu.equateDirective arguments).2 := by
  match arguments with
  | [] => exact .refused (eq ▸ .form Nat.two_pos)
  | name :: texts =>
    by_cases taken : emu.expander.table.contains name = true
    · simp only [Emulator.equateDirective, if_pos taken]
      exact .refused (eq ▸ .duplicate taken)
    · have free : emu.expander.table.contains name = false := Bool.not_eq_true _ ▸ taken
      match texts with
      | [] =>
        simp only [Emulator.equateDirective, if_neg taken]
        exact .refused (eq ▸ .form Nat.one_lt_two)
      | text :: rest =>
        simp only [Emulator.equateDirective, if_neg taken, Emulator.equate, h.expand_eq]
        cases value : emu.setting.expansion text with
        | error e => exact .refused (eq ▸ .equate free value)
        | ok out => exact .equated eq free value

theorem HasTable.lineEffect_setDirective (h : emu.HasTable) {line : Line} {arguments : List Bytes}
    (eq : line.statement = .directive (ascii ".set") arguments) :
    LineEffect emu line (emu.setDirective arguments).1 (emu.setDirective arguments).2 := by
  match arguments with
  | [] => exact .refused (eq ▸ .form Nat.two_pos)
  | name :: texts =>
    cases register : Register.ofMnemonic? name with
    | none =>
      simp only [Emulator.setDirective, register]
      exact .refused (eq ▸ .noRegister register)
    | some r =>
      match texts with
      | [] =>
        simp only [Emulator.setDirective, register]
        exact .refused (eq ▸ .form Nat.one_lt_two)
      | text :: rest =>
        simp only [Emulator.setDirective, register, Emulator.setRegister, h.expand_eq]
        cases value : emu.setting.expansion text with
        | error e => exact .refused (eq ▸ .set register value)
        | ok out =>
          cases number : Literal.parse? out with
          | none =>
            simp only [Literal.parse, number]
            exact .refused (eq ▸ .notNumber register value number)
          | some word =>
            simp only [Literal.parse, number]
            exact .assigned eq register value number

theorem HasTable.lineEffect_evaluate (h : emu.HasTable) {line : Line} {text : Bytes}
    (eq : line.statement = .expression text) :
    LineEffect emu line (emu.evaluate line.number text).1 (emu.evaluate line.number text).2 := by
  simp only [Emulator.evaluate, h.expand_eq]
  cases expanded : emu.setting.expansion text with
  | error e => exact .refused (eq ▸ .expression expanded)
  | ok expr =>
    rcases ran : emu.machine.clearStacks.eval expr with ⟨machine, e | value⟩
    · simp only [ran]
      exact .failed eq expanded ran
    · simp only [ran]
      exact .recorded eq expanded ran

theorem HasTable.lineEffect_execute (h : emu.HasTable) (line : Line) :
    LineEffect emu line (emu.execute line).1 (emu.execute line).2 := by
  rw [execute]
  cases eq : line.statement with
  | expression text => exact h.lineEffect_evaluate eq
  | directive name arguments =>
    simp only [directive]
    by_cases equ : name = ascii ".equ"
    · rw [if_pos equ]
      exact h.lineEffect_equateDirective (equ ▸ eq)
    · rw [if_neg equ]
      by_cases set : name = ascii ".set"
      · rw [if_pos set]
        exact h.lineEffect_setDirective (set ▸ eq)
      · rw [if_neg set]
        exact .refused (eq ▸ .unknown equ set)

/-- Carrying out a line does one of the things that `LineEffect` lists. -/
theorem HasTable.lineEffect (h : emu.HasTable) {line : Line} {emu' : Emulator}
    {answer : Except Error Unit} (done : emu.execute line = (emu', answer)) :
    LineEffect emu line emu' answer := by
  have effect := h.lineEffect_execute line
  rwa [done] at effect

end Execute

/-! ## What no line changes -/

/-- The parts of an emulator narrate exactly if it does, as they do while it runs. -/
structure Narrated (emu : Emulator) : Prop where
  machine : emu.machine.verbose = emu.verbose
  expander : emu.expander.verbose = emu.verbose

theorem narrated_withNarration (emu : Emulator) : emu.withNarration.Narrated := ⟨rfl, rfl⟩

theorem Narrated.withNarration_eq {emu : Emulator} (h : emu.Narrated) :
    emu.withNarration = emu := by
  have machine : { emu.machine with verbose := emu.verbose } = emu.machine := by
    rw [← h.machine]
  have expander : { emu.expander with verbose := emu.verbose } = emu.expander := by
    rw [← h.expander]
  rw [withNarration, machine, expander]

theorem clearStacks_of_eval {m m' : Machine} {expr : Bytes} {answer : Except Error Int32}
    (h : m.clearStacks.eval expr = (m', answer)) : m'.clearStacks = m.clearStacks := by
  have same := m.clearStacks.clearStacks_eval expr
  rw [h] at same
  exact same

section Frame

variable [Constant.Language] {emu emu' : Emulator} {line : Line} {answer : Except Error Unit}

theorem LineEffect.program_eq (h : LineEffect emu line emu' answer) :
    emu'.program = emu.program := by
  cases h <;> rfl

theorem LineEffect.index_eq (h : LineEffect emu line emu' answer) : emu'.index = emu.index := by
  cases h <;> rfl

theorem LineEffect.hasTable (h : LineEffect emu line emu' answer) (table : emu.HasTable) :
    emu'.HasTable := by
  cases h with
  | refused _ => exact table
  | failed _ _ _ => exact table
  | equated _ _ _ => rfl
  | assigned _ _ _ _ => exact table
  | recorded _ _ _ => exact table

theorem LineEffect.narrated (h : LineEffect emu line emu' answer) (told : emu.Narrated) :
    emu'.Narrated := by
  cases h with
  | refused _ => exact told
  | failed _ _ ran =>
    have same := Machine.verbose_of_clearStacks_eq (clearStacks_of_eval ran)
    exact ⟨same.trans told.machine, told.expander⟩
  | equated _ _ _ => exact ⟨told.machine, told.expander⟩
  | assigned _ _ _ _ => exact ⟨told.machine, told.expander⟩
  | recorded _ _ ran =>
    have same := Machine.verbose_of_clearStacks_eq (clearStacks_of_eval ran)
    exact ⟨same.trans told.machine, told.expander⟩

end Frame

/-! ## Ticks and runs -/

/-- The emulator with one line more behind it. -/
def counted (emu : Emulator) : Emulator :=
  { emu with index := emu.index + 1, ticks := emu.ticks + 1 }

theorem HasTable.counted {emu : Emulator} (h : emu.HasTable) : emu.counted.HasTable := h

theorem Narrated.counted {emu : Emulator} (h : emu.Narrated) : emu.counted.Narrated :=
  ⟨h.machine, h.expander⟩

section Tick

variable [Constant.Language]

/-- A tick finds no line, or its line fails, or its line is carried out and counted. -/
theorem tick_cases (emu : Emulator) :
    (emu.next? = none ∧ emu.tick = (emu.withNarration, .ok true)) ∨
    (∃ line emu' cause, emu.next? = some line ∧
      emu.withNarration.execute line = (emu', .error cause) ∧
      emu.tick = (emu', .error (.atLine line.number cause))) ∨
    (∃ line emu', emu.next? = some line ∧ emu.withNarration.execute line = (emu', .ok ()) ∧
      emu.tick = (emu'.counted, .ok false)) := by
  have same : emu.withNarration.next? = emu.next? := rfl
  cases found : emu.next? with
  | none =>
    refine Or.inl ⟨rfl, ?_⟩
    simp only [tick, same, found]
  | some line =>
    rcases done : emu.withNarration.execute line with ⟨emu', cause | _⟩
    · refine Or.inr (Or.inl ⟨line, emu', cause, rfl, done, ?_⟩)
      simp only [tick, same, found, done]
    · refine Or.inr (Or.inr ⟨line, emu', rfl, done, ?_⟩)
      simp only [tick, same, found, done, counted]

/-- What every tick keeps is kept by runs. -/
theorem runFor_induction {P : Emulator → Prop} (kept : ∀ emu, P emu → P emu.tick.1)
    {emu : Emulator} (h : P emu) (n : Nat) : P (runFor n emu).1 := by
  induction n generalizing emu with
  | zero => exact h
  | succ n ih =>
    have after := kept emu h
    rw [runFor]
    rcases ticked : emu.tick with ⟨emu', e | _ | _⟩ <;> rw [ticked] at after
    · exact after
    · exact ih after
    · exact after

/-- What narration, lines and their count keep is kept by a tick. -/
theorem HasTable.tick_of_lineEffect {P : Emulator → Prop} {emu : Emulator} (table : emu.HasTable)
    (told : P emu.withNarration)
    (effect : ∀ {emu emu' line answer}, P emu → LineEffect emu line emu' answer → P emu')
    (counted : ∀ {emu}, P emu → P emu.counted) : P emu.tick.1 := by
  have table : emu.withNarration.HasTable := table
  rcases emu.tick_cases with ⟨-, eq⟩ | ⟨line, emu', cause, -, done, eq⟩ | ⟨line, emu', -, done, eq⟩
  · rw [eq]
    exact told
  · rw [eq]
    exact effect told (table.lineEffect done)
  · rw [eq]
    exact counted (effect told (table.lineEffect done))

theorem HasTable.tick {emu : Emulator} (h : emu.HasTable) : emu.tick.1.HasTable :=
  h.tick_of_lineEffect h (fun table effect => effect.hasTable table) HasTable.counted

end Tick

/-! ## Emulators in use -/

/-- The emulator with a listing loaded; nothing is reset. -/
def load (emu : Emulator) (lines : List Line) : Emulator :=
  { emu with program := some lines.toArray }

/-- The emulators that are reached from a new one by loading listings that were read from texts,
by ticks, runs and resets. -/
inductive Reachable [Constant.Language] : Emulator → Prop
  | new : Reachable new
  | load {emu : Emulator} {text : Bytes} {lines : List Line} :
      Reachable emu → Listing.parse text = .ok lines → Reachable (emu.load lines)
  | tick {emu : Emulator} : Reachable emu → Reachable emu.tick.1
  | run {emu : Emulator} : Reachable emu → Reachable emu.run.1
  | reset {emu : Emulator} : Reachable emu → Reachable emu.reset

theorem Reachable.hasTable [Constant.Language] {emu : Emulator} (h : Reachable emu) : emu.HasTable := by
  induction h with
  | new => rfl
  | load _ _ ih => exact ih
  | tick _ ih => exact ih.tick
  | run _ ih => exact runFor_induction (fun _ table => table.tick) ih _
  | reset _ _ => rfl

end Emulator

end Rpn
