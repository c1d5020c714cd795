import Rpn.Constant.Interpreter
import Rpn.Proofs.Emulator.FailedTick
import Rpn.Proofs.Emulator.Run

/-!
# A run is an iteration of ticks

* `Emulator.Loop` — ticks up to the first that finds no line or fails, and `HasTable.loop_iff`: they
  come to an end, with what a run leaves and answers;
* `Emulator.Executes` — lines are carried out one after the other, and `Emulator.Advanced` what is
  kept and counted on the way;
* `Emulator.Blind` — what is done without a look at the listing, as lines are: `blind_runLines`;
* `Emulator.run_iteration` — how long a run takes, when it succeeds and where it stops; that it can
  be cut in two, and that it changes nothing when it is repeated.
-/

namespace Rpn.Emulator

/-- Ticks that go on while they carry out a line: how many they are, what the last of them leaves,
and the error that it answers, if any. -/
inductive Loop [Constant.Language] : Emulator → Nat → Emulator → Except Error Unit → Prop
  | ended {emu emu' : Emulator} : emu.tick = (emu', .ok true) → Loop emu 1 emu' (.ok ())
  | failed {emu emu' : Emulator} {e : Error} :
      emu.tick = (emu', .error e) → Loop emu 1 emu' (.error e)
  | next {emu emu₁ emu' : Emulator} {n : Nat} {answer : Except Error Unit} :
      emu.tick = (emu₁, .ok false) → Loop emu₁ n emu' answer → Loop emu (n + 1) emu' answer

/-- Each of the lines succeeds, from what the line before it left. -/
inductive Executes [Constant.Language] : Emulator → List Line → Emulator → Prop
  | nil {emu : Emulator} : Executes emu [] emu
  | cons {emu emu₁ emu' : Emulator} {line : Line} {rest : List Line} :
      emu.execute line = (emu₁, .ok ()) → Executes emu₁.counted rest emu' →
      Executes emu (line :: rest) emu'

/-- The emulator with another listing. -/
def withProgram (emu : Emulator) (program : Option (Array Line)) : Emulator :=
  { emu with program }

/-- The emulator with a listing that ends when `n` more lines were run. -/
def cut (emu : Emulator) (n : Nat) : Emulator :=
  emu.load (emu.lines.toList.take (emu.index + n))

variable {emu emu' : Emulator} {line : Line} {lines front back : List Line} {e : Error}
  {answer : Except Error Unit}

/-- What `n` lines keep, and what they count. -/
structure Advanced (emu : Emulator) (n : Nat) (emu' : Emulator) : Prop where
  program_eq : emu'.program = emu.program
  index_eq : emu'.index = emu.index + n
  ticks_eq : emu'.ticks = emu.ticks + n
  hasTable : emu.HasTable → emu'.HasTable
  narrated : emu.Narrated → emu'.Narrated

theorem Advanced.trans {emu'' : Emulator} {m n : Nat} (first : Advanced emu m emu')
    (second : Advanced emu' n emu'') : Advanced emu (m + n) emu'' where
  program_eq := second.program_eq.trans first.program_eq
  index_eq := by rw [second.index_eq, first.index_eq, Nat.add_assoc]
  ticks_eq := by rw [second.ticks_eq, first.ticks_eq, Nat.add_assoc]
  hasTable := second.hasTable ∘ first.hasTable
  narrated := second.narrated ∘ first.narrated

theorem Advanced.remaining_eq {n : Nat} (h : Advanced emu n emu') :
    emu'.remaining = emu.remaining.drop n := by
  rw [remaining, remaining, lines, lines, h.program_eq, h.index_eq, List.drop_drop]

theorem advanced_counted (emu : Emulator) : Advanced emu 1 emu.counted :=
  ⟨rfl, rfl, rfl, HasTable.counted, Narrated.counted⟩

theorem lineNumber_of_remaining_nil (h : emu.remaining = []) : emu.lineNumber = 0 := by
  rw [lineNumber, ← head?_remaining, h]
  rfl

theorem remaining_cut (split : emu.remaining = front ++ back) :
    (emu.cut front.length).remaining = front := by
  have lines : (emu.cut front.length).remaining =
      (emu.lines.toList.take (emu.index + front.length)).drop emu.index := rfl
  rw [lines, List.drop_take, Nat.add_sub_cancel_left]
  show emu.remaining.take front.length = front
  rw [split, List.take_left]

/-- What is done without a look at the listing. -/
def Blind (act : Emulator → Emulator × Except Error Unit) : Prop :=
  ∀ emu program, act (emu.withProgram program) = ((act emu).1.withProgram program, (act emu).2)

theorem Blind.of_eq {act : Emulator → Emulator × Except Error Unit} (blind : Blind act)
    (done : act emu = (emu', answer)) (program : Option (Array Line)) :
    act (emu.withProgram program) = (emu'.withProgram program, answer) := by
  rw [blind, done]

section Language

variable [Constant.Language]

/-! ## What is kept and counted -/

/-- A line counts nothing by itself. -/
theorem LineEffect.advanced (effect : LineEffect emu line emu' answer) : Advanced emu 0 emu' where
  program_eq := effect.program_eq
  index_eq := effect.index_eq
  ticks_eq := by cases effect <;> rfl
  hasTable := effect.hasTable
  narrated := effect.narrated

theorem Executes.advanced (h : Executes emu lines emu') (table : emu.HasTable) :
    Advanced emu lines.length emu' := by
  induction h with
  | nil => exact ⟨rfl, rfl, rfl, id, id⟩
  | @cons emu emu₁ _ line rest done _ ih =>
    have step : Advanced emu 1 emu₁.counted :=
      (table.lineEffect done).advanced.trans (advanced_counted emu₁)
    rw [List.length_cons, Nat.add_comm]
    exact step.trans (ih (step.hasTable table))

/-! ## Lines in order -/

theorem runLines_cons_of_ok {emu₁ : Emulator} (done : emu.execute line = (emu₁, .ok ()))
    (rest : List Line) : emu.runLines (line :: rest) = emu₁.counted.runLines rest := by
  simp only [runLines, advance, done]

theorem runLines_cons_of_error (done : emu.execute line = (emu', .error e)) (rest : List Line) :
    emu.runLines (line :: rest) = (emu', .error (.atLine line.number e)) := by
  simp only [runLines, advance, done]

/-- Lines that succeed can be left out in front. -/
theorem Executes.runLines_append (h : Executes emu front emu') (back : List Line) :
    emu.runLines (front ++ back) = emu'.runLines back := by
  induction h with
  | nil => rfl
  | cons done _ ih => exact (runLines_cons_of_ok done _).trans ih

/-- Lines are carried out up to the first that fails, if any does. -/
theorem runLines_cases (emu : Emulator) (lines : List Line) :
    (∃ emu', Executes emu lines emu' ∧ emu.runLines lines = (emu', .ok ())) ∨
    (∃ front line rest emu₁ emu' cause, lines = front ++ line :: rest ∧ Executes emu front emu₁ ∧
      emu₁.execute line = (emu', .error cause) ∧
      emu.runLines lines = (emu', .error (.atLine line.number cause))) := by
  induction lines generalizing emu with
  | nil => exact Or.inl ⟨emu, .nil, rfl⟩
  | cons line rest ih =>
    rcases done : emu.execute line with ⟨emu₁, cause | _⟩
    · exact Or.inr ⟨[], line, rest, emu, emu₁, cause, rfl, .nil, done, runLines_cons_of_error done _⟩
    · rw [runLines_cons_of_ok done]
      rcases ih emu₁.counted with
        ⟨emu', all, ran⟩ | ⟨front, line', rest', emu₂, emu', cause, rfl, some, failed, ran⟩
      · exact Or.inl ⟨emu', .cons done all, ran⟩
      · exact Or.inr
          ⟨line :: front, line', rest', emu₂, emu', cause, rfl, .cons done some, failed, ran⟩

theorem runLines_eq_ok_iff : emu.runLines lines = (emu', .ok ()) ↔ Executes emu lines emu' := by
  constructor
  · intro ran
    rcases emu.runLines_cases lines with ⟨_, all, eq⟩ | ⟨_, _, _, _, _, _, -, -, -, eq⟩
    · rw [eq] at ran
      cases ran
      exact all
    · rw [eq] at ran
      cases ran
  · intro all
    have ran := all.runLines_append []
    rwa [List.append_nil] at ran

theorem exists_of_runLines_eq_error (ran : emu.runLines lines = (emu', .error e)) :
    ∃ front line rest emu₁ cause, lines = front ++ line :: rest ∧ Executes emu front emu₁ ∧
      emu₁.execute line = (emu', .error cause) ∧ e = .atLine line.number cause := by
  rcases emu.runLines_cases lines with
    ⟨_, -, eq⟩ | ⟨front, line, rest, emu₁, _, cause, split, some, failed, eq⟩
  · rw [eq] at ran
    cases ran
  · rw [eq] at ran
    cases ran
    exact ⟨front, line, rest, emu₁, cause, split, some, failed, rfl⟩

/-- What stands behind a line that fails is not looked at. -/
theorem runLines_append_of_error (ran : emu.runLines front = (emu', .error e)) (back : List Line) :
    emu.runLines (front ++ back) = (emu', .error e) := by
  obtain ⟨first, line, rest, emu₁, cause, rfl, some, failed, rfl⟩ := exists_of_runLines_eq_error ran
  rw [List.append_assoc, some.runLines_append]
  exact runLines_cons_of_error failed _

/-! ## The listing that lines come from -/

theorem blind_equate (name text : Bytes) : Blind (·.equate name text) := by
  intro emu program
  simp only [equate, withProgram]
  rcases emu.expander.expand emu.machine.delimiter text with ⟨expander, e | value⟩ <;> rfl

theorem blind_setRegister (r : Register) (text : Bytes) : Blind (·.setRegister r text) := by
  intro emu program
  simp only [setRegister, withProgram]
  rcases emu.expander.expand emu.machine.delimiter text with ⟨expander, e | value⟩
  · rfl
  · cases number : Literal.parse value <;> simp only [number]

theorem blind_evaluate (number : Int64) (text : Bytes) : Blind (·.evaluate number text) := by
  intro emu program
  simp only [evaluate, withProgram]
  rcases emu.expander.expand emu.machine.delimiter text with ⟨expander, e | expr⟩
  · rfl
  · rcases ran : emu.machine.clearStacks.eval expr with ⟨machine, e | value⟩ <;> simp only [ran]

theorem blind_equateDirective (arguments : List Bytes) : Blind (·.equateDirective arguments) := by
  intro emu program
  match arguments with
  | [] => rfl
  | name :: texts =>
    by_cases taken : emu.expander.table.contains name = true
    · have taken' : (emu.withProgram program).expander.table.contains name = true := taken
      simp only [equateDirective, if_pos taken, if_pos taken']
    · have free : ¬ (emu.withProgram program).expander.table.contains name = true := taken
      simp only [equateDirective, if_neg taken, if_neg free]
      cases texts with
      | nil => rfl
      | cons text _ => exact blind_equate name text emu program

theorem blind_setDirective (arguments : List Bytes) : Blind (·.setDirective arguments) := by
  intro emu program
  match arguments with
  | [] => rfl
  | name :: texts =>
    simp only [setDirective]
    cases Register.ofMnemonic? name with
    | none => rfl
    | some r =>
      cases texts with
      | nil => rfl
      | cons text _ => exact blind_setRegister r text emu program

theorem blind_execute (line : Line) : Blind (·.execute line) := by
  intro emu program
  simp only [execute]
  cases line.statement with
  | expression text => exact blind_evaluate line.number text emu program
  | directive name arguments =>
    simp only [directive]
    by_cases equ : name = ascii ".equ"
    · simp only [if_pos equ]
      exact blind_equateDirective arguments emu program
    · simp only [if_neg equ]
      by_cases set : name = ascii ".set"
      · simp only [if_pos set]
        exact blind_setDirective arguments emu program
      · simp only [if_neg set]

/-- Lines are carried out in the same way whatever listing they come from. -/
theorem blind_runLines (lines : List Line) : Blind (·.runLines lines) := by
  intro emu program
  induction lines generalizing emu with
  | nil => rfl
  | cons line rest ih =>
    simp only
    rcases done : emu.execute line with ⟨emu₁, cause | _⟩
    · rw [runLines_cons_of_error done,
        runLines_cons_of_error ((blind_execute line).of_eq done program)]
    · rw [runLines_cons_of_ok done, runLines_cons_of_ok ((blind_execute line).of_eq done program)]
      exact ih emu₁.counted

/-! ## Runs -/

/-- A run stops at the first line that fails. -/
theorem HasTable.run_error (table : emu.HasTable) (ran : emu.run = (emu', .error e)) :
    ∃ front line rest emu₁ cause, emu.remaining = front ++ line :: rest ∧
      Executes emu.withNarration front emu₁ ∧ emu₁.execute line = (emu', .error cause) ∧
      e = .atLine line.number cause ∧ emu₁.HasTable ∧
      Advanced emu.withNarration front.length emu' ∧ emu'.remaining = line :: rest := by
  have told : emu.withNarration.HasTable := table
  rw [table.run_eq] at ran
  obtain ⟨front, line, rest, emu₁, cause, split, some, failed, rfl⟩ := exists_of_runLines_eq_error ran
  have before := some.advanced told
  have after := before.trans ((before.hasTable told).lineEffect failed).advanced
  have left : emu'.remaining = line :: rest := by
    rw [after.remaining_eq, remaining_withNarration, split]
    exact List.drop_left
  exact ⟨front, line, rest, emu₁, cause, split, some, failed, rfl, before.hasTable told, after, left⟩

theorem HasTable.run_ok_iff (table : emu.HasTable) :
    emu.run = (emu', .ok ()) ↔ Executes emu.withNarration emu.remaining emu' := by
  rw [table.run_eq]
  exact runLines_eq_ok_iff

/-- A run that succeeds leaves no line. -/
theorem HasTable.run_ok (table : emu.HasTable) (ran : emu.run = (emu', .ok ())) :
    Advanced emu.withNarration emu.remaining.length emu' ∧ emu'.remaining = [] := by
  have after := (table.run_ok_iff.mp ran).advanced table
  refine ⟨after, ?_⟩
  rw [after.remaining_eq, remaining_withNarration, List.drop_length]

/-- From where a run stopped, another one goes on with the lines that are left. -/
theorem Advanced.run_eq {n : Nat} (after : Advanced emu.withNarration n emu')
    (table : emu.HasTable) : emu'.run = emu'.runLines emu'.remaining := by
  rw [(after.hasTable table).run_eq, (after.narrated (narrated_withNarration emu)).withNarration_eq]

theorem HasTable.run_again (table : emu.HasTable) : emu.run.1.run = emu.run := by
  rcases ran : emu.run with ⟨emu', e | _⟩
  · obtain ⟨_, line, rest, _, _, -, -, failed, rfl, before, after, left⟩ := table.run_error ran
    rw [after.run_eq table, left]
    exact runLines_cons_of_error (execute_again before failed) rest
  · obtain ⟨after, left⟩ := table.run_ok ran
    rw [after.run_eq table, left]
    rfl

/-- A run of the lines in front, and another one from where it stopped, are one run of all lines. -/
theorem HasTable.run_cut (table : emu.HasTable) (split : emu.remaining = front ++ back)
    (ran : (emu.cut front.length).run = (emu', answer)) :
    (∀ e, answer = .error e → emu.run = (emu'.withProgram emu.program, .error e)) ∧
    (answer = .ok () → (emu'.withProgram emu.program).remaining = back ∧
      emu.run = (emu'.withProgram emu.program).run) := by
  have table' : (emu.cut front.length).HasTable := table
  -- The lines in front do the same as a part of the whole listing.
  have part : emu.withNarration.runLines front = (emu'.withProgram emu.program, answer) := by
    rw [table'.run_eq, remaining_cut split] at ran
    exact (blind_runLines front).of_eq ran emu.program
  refine ⟨?_, ?_⟩
  · rintro e rfl
    rw [table.run_eq, split]
    exact runLines_append_of_error part back
  · rintro rfl
    have all := runLines_eq_ok_iff.mp part
    have after := all.advanced table
    have left : (emu'.withProgram emu.program).remaining = back := by
      rw [after.remaining_eq, remaining_withNarration, split, List.drop_left]
    refine ⟨left, ?_⟩
    rw [table.run_eq, split, all.runLines_append, after.run_eq table, left]

/-! ## Ticks in a loop -/

/-- An emulator ticks in one way only. -/
theorem Loop.unique {emu'' : Emulator} {answer' : Except Error Unit} {m n : Nat}
    (first : Loop emu m emu' answer) (second : Loop emu n emu'' answer') :
    m = n ∧ (emu', answer) = (emu'', answer') := by
  induction first generalizing n with
  | ended ticked =>
    cases second with
    | ended ticked' =>
      cases ticked.symm.trans ticked'
      exact ⟨rfl, rfl⟩
    | failed ticked' => cases ticked.symm.trans ticked'
    | next ticked' _ => cases ticked.symm.trans ticked'
  | failed ticked =>
    cases second with
    | ended ticked' => cases ticked.symm.trans ticked'
    | failed ticked' =>
      cases ticked.symm.trans ticked'
      exact ⟨rfl, rfl⟩
    | next ticked' _ => cases ticked.symm.trans ticked'
  | next ticked _ ih =>
    cases second with
    | ended ticked' => cases ticked.symm.trans ticked'
    | failed ticked' => cases ticked.symm.trans ticked'
    | next ticked' later =>
      cases ticked.symm.trans ticked'
      exact (ih later).imp_left (congrArg (· + 1))

/-- A bounded run is such a loop if the bound leaves a tick to find that no line is left. -/
theorem HasTable.loop_runFor (table : emu.HasTable) {n : Nat} (enough : emu.remaining.length < n) :
    ∃ k ≤ n, Loop emu k (runFor n emu).1 (runFor n emu).2 := by
  induction n generalizing emu with
  | zero => exact absurd enough (Nat.not_lt_zero _)
  | succ n ih =>
    have told : emu.withNarration.HasTable := table
    rcases emu.tick_cases with
      ⟨-, eq⟩ | ⟨line, emu', cause, -, -, eq⟩ | ⟨line, emu', found, done, eq⟩
    · refine ⟨1, Nat.le_add_left 1 n, ?_⟩
      simp only [runFor, eq]
      exact .ended eq
    · refine ⟨1, Nat.le_add_left 1 n, ?_⟩
      simp only [runFor, eq]
      exact .failed eq
    · -- One line less is left.
      have effect := told.lineEffect done
      rw [remaining_of_next?_eq_some found] at enough
      obtain ⟨k, le, loop⟩ := ih (effect.hasTable told).counted
        (by rw [effect.remaining_counted]; exact Nat.lt_of_succ_lt_succ enough)
      refine ⟨k + 1, Nat.succ_le_succ le, ?_⟩
      simp only [runFor, eq]
      exact .next eq loop

/-- Ticks end, after one more than there are lines left at most, and leave what a run leaves. -/
theorem HasTable.loop_iff (table : emu.HasTable) :
    ∃ n ≤ emu.remaining.length + 1, ∀ k emu' answer,
      Loop emu k emu' answer ↔ k = n ∧ (emu', answer) = emu.run := by
  obtain ⟨n, le, loop⟩ := table.loop_runFor (Nat.lt_succ_self _)
  rw [length_remaining] at le loop
  refine ⟨n, by rwa [length_remaining], fun k emu' answer => ⟨fun other => other.unique loop, ?_⟩⟩
  rintro ⟨rfl, same⟩
  rw [show emu' = emu.run.1 from congrArg Prod.fst same,
    show answer = emu.run.2 from congrArg Prod.snd same]
  exact loop

/-- **A run is the iteration of ticks.**  On every emulator with a table of equates, ticks end after
one more than there are lines left at most, with what a run leaves and answers.  A run succeeds
exactly if all lines that are left do, each from what the one before it left, and then it counts
them and none is next; else it tells the first line that fails, counts those before it and stands at
it.  Wherever the lines that are left are cut in two, a run of the first ones and a run from where it
stopped are a run of all; and a run right after a run changes nothing and answers the same. -/
theorem run_iteration (table : emu.HasTable) :
    (∃ n ≤ emu.remaining.length + 1, ∀ k emu' answer,
      Loop emu k emu' answer ↔ k = n ∧ (emu', answer) = emu.run) ∧
    (∀ emu', emu.run = (emu', .ok ()) ↔ Executes emu.withNarration emu.remaining emu') ∧
    (∀ emu', emu.run = (emu', .ok ()) →
      emu'.ticks = emu.ticks + emu.remaining.length ∧ emu'.lineNumber = 0) ∧
    (∀ emu' e, emu.run = (emu', .error e) →
      ∃ front line rest emu₁ cause, emu.remaining = front ++ line :: rest ∧
        Executes emu.withNarration front emu₁ ∧ emu₁.execute line = (emu', .error cause) ∧
        e = .atLine line.number cause ∧
        emu'.ticks = emu.ticks + front.length ∧ emu'.lineNumber = line.number) ∧
    (∀ front back, emu.remaining = front ++ back →
      (emu.cut front.length).remaining = front ∧
      ∀ emu' answer, (emu.cut front.length).run = (emu', answer) →
        (∀ e, answer = .error e → emu.run = (emu'.withProgram emu.program, .error e)) ∧
        (answer = .ok () → (emu'.withProgram emu.program).remaining = back ∧
          emu.run = (emu'.withProgram emu.program).run)) ∧
    emu.run.1.run = emu.run := by
  refine ⟨table.loop_iff, fun _ => table.run_ok_iff, ?_, ?_, ?_, table.run_again⟩
  · intro emu' ran
    obtain ⟨after, left⟩ := table.run_ok ran
    exact ⟨after.ticks_eq, lineNumber_of_remaining_nil left⟩
  · intro emu' e ran
    obtain ⟨front, line, rest, emu₁, cause, split, some, failed, rfl, -, after, left⟩ :=
      table.run_error ran
    exact ⟨front, line, rest, emu₁, cause, split, some, failed, rfl, after.ticks_eq,
      lineNumber_of_remaining left⟩
  · intro front back split
    exact ⟨remaining_cut split, fun _ _ => table.run_cut split⟩

end Language

attribute [local instance] Constant.interpreter

/-- The second line finds too little on the stacks: it is told in one run, in one that goes on
behind the first line, and in every later one. -/
theorem run_iteration_of_underflow :
    let emu := new.load [⟨1, .expression (ascii "1,2,+")⟩, ⟨2, .expression (ascii "+")⟩]
    let part := (emu.cut 1).run
    emu.HasTable ∧ part.2 = .ok () ∧
      emu.run.2 = .error (.atLine 2 (.atToken 0 (ascii "+") (.under 0 .stackEmpty))) ∧
      emu.run = (part.1.withProgram emu.program).run ∧ emu.run.1.run = emu.run := by
  intro emu part
  have table : emu.HasTable := rfl
  have ended : part.2 = .ok () := by decide +kernel
  have failed : emu.run.2 = .error (.atLine 2 (.atToken 0 (ascii "+") (.under 0 .stackEmpty))) := by
    decide +kernel
  obtain ⟨-, -, -, -, halves, again⟩ := run_iteration table
  have split : emu.remaining =
    [⟨1, .expression (ascii "1,2,+")⟩] ++ [⟨2, .expression (ascii "+")⟩] := rfl
  have goesOn := ((halves _ _ split).2 _ _ (Prod.eta part).symm).2 ended
  exact ⟨table, ended, failed, goesOn.2, again⟩

end Rpn.Emulator
