import Rpn.Proofs.Emulator.Effect
import Rpn.Proofs.Listing.RoundTrip

/-!
# What every emulator in use has

Whatever listings were loaded and however they ended, an emulator in use can be made new by a reset,
and has only lines that a text can hold.

* `Emulator.InUse` — what every emulator in use has;
* `Emulator.InUse.lineEffect` and `Emulator.InUse.tick` — a line and a tick keep it;
* `Emulator.Reachable.inUse` — so does everything that leads to an emulator in use.
-/

namespace Rpn

namespace Machine

variable {m m' : Machine}

theorem reset_of_clearStacks_eq (same : m'.clearStacks = m.clearStacks) : m'.reset = m.reset := by
  rw [reset, reset, same]

/-- Two stacks of one depth are aligned once they are empty. -/
theorem aligned_clearStacks {depth : UInt64} (founded : m.reset = ofDepth depth) :
    m.clearStacks.Aligned := by
  have values : m.values.clear = Stack.ofDepth depth := congrArg Machine.values founded
  have origins : m.origins.clear = Stack.ofDepth depth := congrArg Machine.origins founded
  refine ⟨rfl, ?_, Nat.zero_le _⟩
  show m.origins.clear.capacity = m.values.clear.capacity
  rw [values, origins]

end Machine

/-- The statements of a listing that is read are well formed. -/
theorem Listing.statement_wellFormed_of_parse {text : Bytes} {lines : List Line}
    (read : parse text = .ok lines) : ∀ line ∈ lines, line.statement.WellFormed := by
  intro line mem
  rw [eq_filterMap_of_parse read] at mem
  obtain ⟨place, known, found⟩ := List.mem_filterMap.mp mem
  exact (wellFormed_of_lineAt? read known found).1

namespace Emulator

variable {emu emu' : Emulator} {line : Line} {answer : Except Error Unit}

/-- What every emulator in use has: a table of equates, a machine that a reset makes new, and lines
that a text can hold. -/
structure InUse (emu : Emulator) : Prop where
  hasTable : emu.HasTable
  silent : emu.verbose = false
  /-- The delimiter and the depth of the stacks are those of a new machine. -/
  machine_reset : emu.machine.reset = Machine.ofDepth (UInt64.ofNat stackDepth)
  wellFormed : ∀ line ∈ emu.lines, line.statement.WellFormed

theorem inUse_new : InUse new where
  hasTable := rfl
  silent := rfl
  machine_reset := rfl
  wellFormed := nofun

theorem InUse.withNarration (h : emu.InUse) : emu.withNarration.InUse where
  hasTable := h.hasTable
  silent := h.silent
  machine_reset := by
    have told : emu.withNarration.machine.reset = { emu.machine.reset with verbose := emu.verbose } :=
      rfl
    rw [told, h.machine_reset, h.silent]
    rfl
  wellFormed := h.wellFormed

theorem InUse.counted (h : emu.InUse) : emu.counted.InUse :=
  ⟨h.hasTable, h.silent, h.machine_reset, h.wellFormed⟩

variable [Constant.Language]

/-- No line changes what a reset of the machine leaves. -/
theorem LineEffect.machine_reset (effect : LineEffect emu line emu' answer) :
    emu'.machine.reset = emu.machine.reset := by
  cases effect with
  | refused _ => rfl
  | failed _ _ ran => exact Machine.reset_of_clearStacks_eq (clearStacks_of_eval ran)
  | equated _ _ _ => rfl
  | assigned _ _ _ _ => rfl
  | recorded _ _ ran => exact Machine.reset_of_clearStacks_eq (clearStacks_of_eval ran)

theorem LineEffect.verbose_eq (effect : LineEffect emu line emu' answer) :
    emu'.verbose = emu.verbose := by
  cases effect <;> rfl

theorem InUse.lineEffect (h : emu.InUse) (effect : LineEffect emu line emu' answer) :
    emu'.InUse where
  hasTable := effect.hasTable h.hasTable
  silent := effect.verbose_eq.trans h.silent
  machine_reset := effect.machine_reset.trans h.machine_reset
  wellFormed := by
    rw [lines, effect.program_eq]
    exact h.wellFormed

theorem InUse.tick (h : emu.InUse) : emu.tick.1.InUse :=
  h.hasTable.tick_of_lineEffect h.withNarration InUse.lineEffect InUse.counted

/-- Loading listings, ticks, runs and resets keep what every emulator in use has. -/
theorem Reachable.inUse (h : Reachable emu) : emu.InUse := by
  induction h with
  | new => exact inUse_new
  | load _ read ih =>
    refine ⟨ih.hasTable, ih.silent, ih.machine_reset, ?_⟩
    intro line mem
    exact Listing.statement_wellFormed_of_parse read line (List.mem_toArray.mp mem)
  | tick _ ih => exact ih.tick
  | run _ ih => exact runFor_induction (fun _ used => used.tick) ih _
  | reset _ ih => exact ⟨rfl, ih.silent, ih.machine_reset, ih.wellFormed⟩

end Emulator

end Rpn
