import Rpn.Proofs.Emulator.Run

/-!
# What one line leaves to the next

Of an emulator a line finds the registers, the delimiter, the depth of the stacks and the equates,
but nothing that lies on the stacks; only directives change what it finds.

* `Setting.result?` is the result that a line records in a setting, and `Setting.Step` what it makes
  of the setting if it succeeds;
* `Emulator.HasTable.steps_of_runLines` and `Emulator.HasTable.runLines_of_steps` — lines run without
  failure exactly if there are such steps, and record what `Setting.Steps` lists.
-/

namespace Rpn

namespace Setting

/-- The value of an expression, if it has one. -/
def value? [Constant.Language] (s : Setting) (text : Bytes) : Option Int32 :=
  match s.expansion text with
  | .error _ => none
  | .ok expr => (s.machine.eval expr).2.toOption

/-- The result that a line records, with its number. -/
def result? [Constant.Language] (s : Setting) (line : Line) : Option (Int64 × Int32) :=
  match line.statement with
  | .expression text => (s.value? text).map fun value => (line.number, value)
  | .directive _ _ => none

/-- The setting that a line leaves if it succeeds. -/
inductive Step [Constant.Language] (s : Setting) (line : Line) : Setting → Prop
  | expression {entry : Int64 × Int32} : s.result? line = some entry → Step s line s
  | equate {name text value : Bytes} {rest : List Bytes} :
      line.statement = .directive (ascii ".equ") (name :: text :: rest) →
      s.expander.table.contains name = false → s.expansion text = .ok value →
      Step s line { s with expander := s.expander.equate name value }
  | set {name text value : Bytes} {rest : List Bytes} {r : Register} {word : Int32} :
      line.statement = .directive (ascii ".set") (name :: text :: rest) →
      Register.ofMnemonic? name = some r → s.expansion text = .ok value →
      Literal.parse? value = some word →
      Step s line
        { s with machine := { s.machine with registers := s.machine.registers.set r word } }

/-- Lines that all succeed, with the results that they record. -/
inductive Steps [Constant.Language] : Setting → List Line → List (Int64 × Int32) → Setting → Prop
  | nil {s : Setting} : Steps s [] [] s
  | cons {s s₁ s₂ : Setting} {line : Line} {lines : List Line} {entries : List (Int64 × Int32)} :
      Step s line s₁ → Steps s₁ lines entries s₂ →
      Steps s (line :: lines) ((s.result? line).toList ++ entries) s₂

variable [Constant.Language] {s : Setting} {line : Line}

theorem result?_of_expression {text : Bytes} (h : line.statement = .expression text) :
    s.result? line = (s.value? text).map fun value => (line.number, value) := by
  rw [result?, h]

theorem result?_of_directive {name : Bytes} {arguments : List Bytes}
    (h : line.statement = .directive name arguments) : s.result? line = none := by
  rw [result?, h]

theorem value?_eq_some_iff {text : Bytes} {value : Int32} :
    s.value? text = some value ↔
      ∃ expr machine, s.expansion text = .ok expr ∧ s.machine.eval expr = (machine, .ok value) := by
  rw [value?]
  constructor
  · intro h
    cases expanded : s.expansion text with
    | error e =>
      rw [expanded] at h
      cases h
    | ok expr =>
      rw [expanded] at h
      rcases ran : s.machine.eval expr with ⟨machine, e | v⟩ <;> simp only [ran] at h <;> cases h
      exact ⟨expr, machine, rfl, ran⟩
  · rintro ⟨expr, machine, expanded, ran⟩
    simp only [expanded, ran]
    rfl

/-- A line that records a result is an expression, and has that value. -/
theorem exists_of_result?_eq_some {entry : Int64 × Int32} (h : s.result? line = some entry) :
    ∃ text value, line.statement = .expression text ∧ s.value? text = some value ∧
      entry = (line.number, value) := by
  cases found : line.statement with
  | expression text =>
    rw [result?_of_expression found] at h
    obtain ⟨value, eq, rfl⟩ := Option.map_eq_some_iff.mp h
    exact ⟨text, value, rfl, eq, rfl⟩
  | directive name arguments =>
    rw [result?_of_directive found] at h
    cases h

theorem Steps.append {s₁ s₂ : Setting} {lines lines' : List Line}
    {entries entries' : List (Int64 × Int32)} (front : Steps s lines entries s₁)
    (back : Steps s₁ lines' entries' s₂) :
    Steps s (lines ++ lines') (entries ++ entries') s₂ := by
  induction front with
  | nil => exact back
  | cons step _ ih =>
    rw [List.append_assoc]
    exact .cons step (ih back)

theorem Steps.of_append {s₂ : Setting} {lines lines' : List Line} {all : List (Int64 × Int32)}
    (steps : Steps s (lines ++ lines') all s₂) :
    ∃ entries entries' s₁, Steps s lines entries s₁ ∧ Steps s₁ lines' entries' s₂ ∧
      all = entries ++ entries' := by
  induction lines generalizing s all with
  | nil => exact ⟨[], all, s, .nil, steps, rfl⟩
  | cons line lines ih =>
    cases steps with
    | cons step rest =>
      obtain ⟨entries, entries', s₁, front, back, rfl⟩ := ih rest
      exact ⟨_, entries', s₁, .cons step front, back, (List.append_assoc _ _ _).symm⟩

end Setting

namespace Emulator

open Setting

variable [Constant.Language] {emu emu' : Emulator}

/-! ## Carrying out lines -/

/-- A line that succeeds makes a step, and records at most its result. -/
theorem HasTable.step_of_execute (table : emu.HasTable) {line : Line}
    (done : emu.execute line = (emu', .ok ())) :
    Step emu.setting line emu'.setting ∧
      emu'.results = emu.results.insertMany (emu.setting.result? line).toList := by
  cases table.lineEffect done with
  | equated eq free expanded =>
    rw [result?_of_directive eq]
    exact ⟨.equate eq free expanded, rfl⟩
  | assigned eq register expanded number =>
    rw [result?_of_directive eq]
    exact ⟨.set eq register expanded number, rfl⟩
  | @recorded text expr machine value eq expanded ran =>
    have found : emu.setting.value? text = some value :=
      value?_eq_some_iff.mpr ⟨expr, machine, expanded, ran⟩
    have entry : emu.setting.result? line = some (line.number, value) := by
      rw [result?_of_expression eq, found]
      rfl
    have same : (⟨machine.clearStacks, emu.expander⟩ : Setting) = emu.setting := by
      rw [setting, clearStacks_of_eval ran]
    constructor
    · show Step emu.setting line ⟨machine.clearStacks, emu.expander⟩
      rw [same]
      exact .expression entry
    · rw [entry]
      rfl

/-- A line that has a step succeeds, and makes that step. -/
theorem HasTable.execute_of_step (table : emu.HasTable) {line : Line} {s : Setting}
    (step : Step emu.setting line s) :
    ∃ emu', emu.execute line = (emu', .ok ()) ∧ emu'.setting = s := by
  cases step with
  | expression entry =>
    obtain ⟨text, value, eq, found, -⟩ := exists_of_result?_eq_some entry
    obtain ⟨expr, machine, expanded, ran⟩ := value?_eq_some_iff.mp found
    have expand := table.expand_of_eq expanded
    refine ⟨{ emu with machine, results := emu.results.insert line.number value }, ?_, ?_⟩
    · rw [execute, eq]
      simp only [Emulator.evaluate, expand]
      rw [show emu.machine.clearStacks.eval expr = (machine, .ok value) from ran]
    · rw [setting, setting, clearStacks_of_eval ran]
  | @equate name text value rest eq free expanded =>
    have expand := table.expand_of_eq expanded
    have notTaken : ¬ emu.expander.table.contains name = true := Bool.eq_false_iff.mp free
    refine ⟨{ emu with expander := emu.expander.equate name value }, ?_, rfl⟩
    rw [execute, eq]
    simp only [directive, if_pos, Emulator.equateDirective, if_neg notTaken, Emulator.equate, expand]
  | @set name text value rest r word eq register expanded number =>
    have expand := table.expand_of_eq expanded
    have other : ¬ ascii ".set" = ascii ".equ" := by decide
    refine ⟨{ emu with machine.registers := emu.machine.registers.set r word }, ?_, rfl⟩
    rw [execute, eq]
    simp only [directive, if_neg other, if_pos, Emulator.setDirective, register, Emulator.setRegister,
      expand, Literal.parse, number]

/-- Lines that all succeed make steps, and record the results that the steps list. -/
theorem HasTable.steps_of_runLines (table : emu.HasTable) {lines : List Line}
    (done : emu.runLines lines = (emu', .ok ())) :
    ∃ entries, Steps emu.setting lines entries emu'.setting ∧
      emu'.results = emu.results.insertMany entries := by
  induction lines generalizing emu with
  | nil =>
    cases done
    exact ⟨[], .nil, rfl⟩
  | cons line rest ih =>
    rcases first : emu.execute line with ⟨emu₁, e | _⟩
    · simp only [runLines, advance, first] at done
      cases done
    · simp only [runLines, advance, first] at done
      obtain ⟨step, recorded⟩ := table.step_of_execute first
      have table₁ := ((table.lineEffect first).hasTable table).counted
      obtain ⟨entries, steps, results⟩ := ih table₁ done
      refine ⟨_, .cons step steps, ?_⟩
      rw [results, Std.ExtTreeMap.insertMany_append, ← recorded, Emulator.counted]

/-- Lines that have steps all succeed, and make those steps. -/
theorem HasTable.runLines_of_steps (table : emu.HasTable) {lines : List Line}
    {entries : List (Int64 × Int32)} {s : Setting} (steps : Steps emu.setting lines entries s) :
    ∃ emu', emu.runLines lines = (emu', .ok ()) ∧ emu'.setting = s ∧
      emu'.results = emu.results.insertMany entries := by
  induction lines generalizing emu entries with
  | nil =>
    cases steps
    exact ⟨emu, rfl, rfl, rfl⟩
  | cons line rest ih =>
    cases steps with
    | cons step steps =>
      obtain ⟨emu₁, first, rfl⟩ := table.execute_of_step step
      obtain ⟨-, recorded⟩ := table.step_of_execute first
      have table₁ := ((table.lineEffect first).hasTable table).counted
      obtain ⟨emu', done, same, results⟩ := ih table₁ steps
      refine ⟨emu', ?_, same, ?_⟩
      · simp only [runLines, advance, first]
        exact done
      · rw [results, Std.ExtTreeMap.insertMany_append, ← recorded, Emulator.counted]

end Emulator

end Rpn
