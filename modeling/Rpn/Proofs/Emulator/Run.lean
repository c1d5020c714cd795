import Rpn.Proofs.Emulator.Effect

/-!
# A run, line by line

* `Emulator.advance` carries out a line and counts it, and `Emulator.runLines` does so for lines in
  order, up to the first that fails;
* `Emulator.HasTable.run_eq` — a run is `runLines` over the lines that are left.
-/

namespace Rpn.Emulator

/-- Carries out a line and counts it; a failure tells the line. -/
def advance [Constant.Language] (emu : Emulator) (line : Line) : Emulator × Except Error Unit :=
  match emu.execute line with
  | (emu, .error e) => (emu, .error (.atLine line.number e))
  | (emu, .ok ()) => (emu.counted, .ok ())

/-- Carries out lines in order, up to the first that fails. -/
def runLines [Constant.Language] (emu : Emulator) : List Line → Emulator × Except Error Unit
  | [] => (emu, .ok ())
  | line :: rest =>
    match emu.advance line with
    | (emu, .error e) => (emu, .error e)
    | (emu, .ok ()) => runLines emu rest

variable {emu emu' : Emulator} {line : Line}

theorem remaining_of_next?_eq_none (h : emu.next? = none) : emu.remaining = [] := by
  rw [← head?_remaining] at h
  exact List.head?_eq_none_iff.mp h

theorem remaining_of_next?_eq_some (h : emu.next? = some line) :
    emu.remaining = line :: emu.lines.toList.drop (emu.index + 1) := by
  have found : emu.lines.toList[emu.index]? = some line := by
    rw [Array.getElem?_toList]
    exact h
  rw [remaining, List.drop_eq_getElem?_toList_append, found]
  rfl

variable [Constant.Language]

/-- What is left when a line has been carried out and counted. -/
theorem LineEffect.remaining_counted {answer : Except Error Unit}
    (effect : LineEffect emu line emu' answer) :
    emu'.counted.remaining = emu.lines.toList.drop (emu.index + 1) := by
  rw [remaining, counted, lines, effect.program_eq, effect.index_eq]
  rfl

/-- A run for more trials than there are lines left carries out all of them in order. -/
theorem HasTable.runFor_eq (table : emu.HasTable) {n : Nat} (enough : emu.remaining.length < n) :
    runFor n emu = emu.withNarration.runLines emu.remaining := by
  induction n generalizing emu with
  | zero => exact absurd enough (Nat.not_lt_zero _)
  | succ n ih =>
    have told : emu.withNarration.HasTable := table
    rcases emu.tick_cases with
      ⟨ended, eq⟩ | ⟨line, emu', cause, found, done, eq⟩ | ⟨line, emu', found, done, eq⟩
    · rw [remaining_of_next?_eq_none ended]
      simp only [runFor, eq, runLines]
    · rw [remaining_of_next?_eq_some found]
      simp only [runFor, eq, runLines, advance, done]
    · -- The emulator that the line leaves narrates already, and goes on with the lines behind it.
      have effect := told.lineEffect done
      have narrated := (effect.narrated (narrated_withNarration emu)).counted
      have left := effect.remaining_counted
      rw [remaining_of_next?_eq_some found] at enough ⊢
      have rest := ih (effect.hasTable told).counted
        (by rw [left]; exact Nat.lt_of_succ_lt_succ enough)
      rw [narrated.withNarration_eq, left] at rest
      simp only [runFor, eq, runLines, advance, done]
      exact rest

/-- **A run carries out the lines that are left, in order, up to the first that fails.** -/
theorem HasTable.run_eq (table : emu.HasTable) :
    emu.run = emu.withNarration.runLines emu.remaining :=
  table.runFor_eq (by rw [length_remaining]; exact Nat.lt_succ_self _)

end Rpn.Emulator
