import Rpn.Constant.Interpreter
import Rpn.Proofs.Emulator.History
import Rpn.Proofs.Emulator.Reachable

/-!
# A reset makes an emulator new

Whatever an emulator in use has run, and wherever that stopped, a reset leaves nothing of it but the
listing.  So what a listing does after a reset is what it does on a new emulator.

* `Emulator.Founded` — the predefines of an emulator in use are those of a new one, and stand in its
  table;
* `Emulator.Founded.lineEffect`, `Emulator.Founded.tick` and `Emulator.Reachable.founded` — a line, a
  tick, and whatever leads to an emulator in use keep that;
* `Emulator.Founded.reset_eq` — a reset makes the emulator new;
* `Emulator.reset_reproduces` — what this means for runs and for equates.
-/

namespace Rpn

theorem Expander.reset_reset (ex : Expander) : ex.reset.reset = ex.reset := rfl

namespace Emulator

variable {emu emu' : Emulator} {line : Line} {answer : Except Error Unit}

/-- An emulator in use that has the predefines of a new one. -/
structure Founded (emu : Emulator) : Prop where
  used : emu.InUse
  expander_reset : emu.expander.reset = new.expander
  /-- The predefined names are taken, so that no line can equate them. -/
  taken : ∀ name ∈ new.expander.table, name ∈ emu.expander.table

theorem founded_new : Founded new where
  used := inUse_new
  expander_reset := Expander.reset_reset _
  taken := fun _ mem => mem

theorem Founded.withNarration (h : emu.Founded) : emu.withNarration.Founded where
  used := h.used.withNarration
  expander_reset := by
    have told : emu.withNarration.expander.reset =
        { emu.expander.reset with verbose := emu.verbose } := rfl
    rw [told, h.expander_reset, h.used.silent]
    rfl
  taken := h.taken

theorem Founded.counted (h : emu.Founded) : emu.counted.Founded :=
  ⟨h.used.counted, h.expander_reset, h.taken⟩

/-- A reset makes the emulator new, but for its listing. -/
theorem Founded.reset_eq (h : emu.Founded) : emu.reset = { new with program := emu.program } := by
  rw [reset, h.used.machine_reset, h.expander_reset, h.used.silent]
  rfl

section Language

variable [Constant.Language]

/-! ## What a line leaves of the predefines -/

/-- No line changes what a reset of the expander leaves. -/
theorem LineEffect.expander_reset (effect : LineEffect emu line emu' answer) :
    emu'.expander.reset = emu.expander.reset := by
  cases effect <;> rfl

/-- No line takes a name out of the table. -/
theorem LineEffect.mem_table (effect : LineEffect emu line emu' answer) {name : Bytes}
    (mem : name ∈ emu.expander.table) : name ∈ emu'.expander.table := by
  cases effect with
  | refused _ => exact mem
  | failed _ _ _ => exact mem
  | equated _ _ _ =>
    rw [Expander.table_equate, Std.ExtTreeMap.mem_insert]
    exact Or.inr mem
  | assigned _ _ _ _ => exact mem
  | recorded _ _ _ => exact mem

theorem Founded.lineEffect (h : emu.Founded) (effect : LineEffect emu line emu' answer) :
    emu'.Founded where
  used := h.used.lineEffect effect
  expander_reset := effect.expander_reset.trans h.expander_reset
  taken := fun name mem => effect.mem_table (h.taken name mem)

theorem Founded.tick (h : emu.Founded) : emu.tick.1.Founded :=
  h.used.hasTable.tick_of_lineEffect h.withNarration Founded.lineEffect Founded.counted

theorem Reachable.founded (h : Reachable emu) : emu.Founded := by
  induction h with
  | new => exact founded_new
  | load reachable read ih =>
    exact ⟨(Reachable.load reachable read).inUse, ih.expander_reset, ih.taken⟩
  | tick _ ih => exact ih.tick
  | run _ ih => exact runFor_induction (fun _ founded => founded.tick) ih _
  | @reset emu reachable ih =>
    refine ⟨reachable.reset.inUse, ih.expander_reset, ?_⟩
    intro name mem
    rw [ih.reset_eq]
    exact mem

/-- The name that a line equates is not predefined. -/
theorem Founded.not_mem_of_equation (h : emu.Founded) {name text : Bytes}
    (found : emu.next? = some line) (eq : line.equation? = some (name, text))
    (done : emu.tick.2 = .ok false) : name ∉ new.expander.table := by
  have table := h.withNarration.used.hasTable
  intro mem
  rcases emu.tick_cases with
    ⟨-, ticked⟩ | ⟨_, _, _, -, -, ticked⟩ | ⟨line', emu', found', carried, ticked⟩
  · rw [ticked] at done
    cases done
  · rw [ticked] at done
    cases done
  · obtain rfl : line = line' := Option.some.inj (found.symm.trans found')
    exact ((table.lineEffect carried).table_of_equation eq).1 (h.taken name mem)

/-- **A reset makes runs reproducible.**  Whatever listings an emulator has run, and however they
ended, a reset makes it new but for its listing.  So a listing that is loaded and run after a reset
does and answers what it does on a new emulator.  No name that a line has equated before, in
whatever run, has a meaning after the reset. -/
theorem reset_reproduces (reachable : Reachable emu) :
    emu.reset = { new with program := emu.program } ∧
    (∀ lines, (emu.load lines).reset.run = (new.load lines).run) ∧
    ∀ past line name text, Reachable past → past.next? = some line →
      line.equation? = some (name, text) → past.tick.2 = .ok false →
      emu.reset.expander.table[name]? = none := by
  have renewed := reachable.founded.reset_eq
  refine ⟨renewed, ?_, ?_⟩
  · intro lines
    have loaded : (emu.load lines).reset = emu.reset.load lines := rfl
    rw [loaded, renewed]
    rfl
  · intro past line name text reachable' found eq done
    have absent := reachable'.founded.not_mem_of_equation found eq done
    rw [renewed]
    exact Std.ExtTreeMap.getElem?_eq_none absent

end Language

attribute [local instance] Constant.interpreter

/-- A listing that equates `ten` and then divides by zero leaves the equate and a 7 on the stack, and
nothing of that after a reset. -/
theorem reset_reproduces_of_quotient :
    let start := new.load
      [⟨1, .directive (ascii ".equ") [ascii "ten", ascii "10"]⟩, ⟨2, .expression (ascii "7,0,ten,/")⟩]
    let emu := start.run.1
    Reachable emu ∧ emu.expander.table[ascii "ten"]? = some (ascii "10") ∧
      emu.machine.values.toList = [7] ∧ emu.reset.expander.table[ascii "ten"]? = none ∧
      ∀ lines, (emu.load lines).reset.run = (new.load lines).run := by
  intro start emu
  have read : Listing.parse (ascii ".equ ten 10\n7,0,ten,/") =
      .ok [⟨1, .directive (ascii ".equ") [ascii "ten", ascii "10"]⟩,
        ⟨2, .expression (ascii "7,0,ten,/")⟩] := by decide +kernel
  have loaded : Reachable start := .load .new read
  have reachable : Reachable emu := .run loaded
  obtain ⟨-, runs, unseen⟩ := reset_reproduces reachable
  have gone := unseen start _ (ascii "ten") (ascii "10") loaded rfl rfl (by decide +kernel)
  exact ⟨reachable, by decide +kernel, by decide +kernel, gone, runs⟩

end Emulator

end Rpn
