import Rpn.Proofs.Emulator.FailedTick
import Rpn.Proofs.Emulator.Rearrangement

/-!
# An emulator and the lines behind it

While a listing is ticked from its beginning, every part of the emulator is settled by the lines
that it has behind it: its place and its count, the results, the equates and the registers.

* `Line.equation?` and `Line.assignment?` — what a directive names or sets, and by which text;
* `Emulator.ticked_index_or_stuck` — ticks go on line by line until one fails or no line is left,
  and from then on nothing changes;
* `Emulator.Executed` — what an emulator owes to each of the lines behind it;
* `Emulator.Executed.carriedOut` — what one more line adds, and `Emulator.executed_ticked` for any
  number of ticks.
-/

namespace Rpn

namespace Line

/-- The name that a line equates, and the text that it gives for it. -/
def equation? (line : Line) : Option (Bytes × Bytes) :=
  match line.statement with
  | .directive directive (name :: text :: _) =>
    if directive = ascii ".equ" then some (name, text) else none
  | _ => none

/-- The register that a line sets, and the text that it gives for it. -/
def assignment? (line : Line) : Option (Register × Bytes) :=
  match line.statement with
  | .directive directive (name :: text :: _) =>
    if directive = ascii ".set" then (Register.ofMnemonic? name).map (·, text) else none
  | _ => none

variable {line : Line}

theorem kind_of_expression {text : Bytes} (h : line.statement = .expression text) :
    line.isExpression = true ∧ line.equation? = none ∧ line.assignment? = none := by
  simp [isExpression, equation?, assignment?, h]

theorem kind_of_equate {name text : Bytes} {rest : List Bytes}
    (h : line.statement = .directive (ascii ".equ") (name :: text :: rest)) :
    line.isExpression = false ∧ line.equation? = some (name, text) ∧ line.assignment? = none := by
  have other : ¬ ascii ".equ" = ascii ".set" := by decide
  simp [isExpression, equation?, assignment?, h, other]

theorem kind_of_set {name text : Bytes} {rest : List Bytes} {r : Register}
    (h : line.statement = .directive (ascii ".set") (name :: text :: rest))
    (register : Register.ofMnemonic? name = some r) :
    line.isExpression = false ∧ line.equation? = none ∧ line.assignment? = some (r, text) := by
  have other : ¬ ascii ".set" = ascii ".equ" := by decide
  simp [isExpression, equation?, assignment?, h, other, register]

end Line

namespace Emulator

/-- The names that some lines equate, in order. -/
def equatedNames (lines : List Line) : List Bytes :=
  lines.filterMap fun line => line.equation?.map Prod.fst

/-- An emulator that has the lines of a listing in front of its place behind it.  The listing began
on given predefines, and `state j` is the emulator that had `j` ticks. -/
structure Executed [Constant.Language] (lines : List Line) (predefines : Table Bytes Bytes)
    (state : Nat → Emulator) (emu : Emulator) : Prop where
  hasTable : emu.HasTable
  ticks_eq : emu.ticks = emu.index
  index_le : emu.index ≤ lines.length
  /-- Every line behind was run at the tick of its place. -/
  reached : ∀ j ≤ emu.index, (state j).index = j
  /-- There are results exactly for the expressions. -/
  results_iff : ∀ number, number ∈ emu.results ↔
    ∃ line ∈ lines.take emu.index, line.isExpression = true ∧ line.number = number
  names_nodup : (equatedNames (lines.take emu.index)).Nodup
  names_new : ∀ name ∈ equatedNames (lines.take emu.index), name ∉ predefines
  predefines_eq : emu.expander.predefines = predefines
  /-- What no line has equated means what it meant at the beginning. -/
  table_other : ∀ name ∉ equatedNames (lines.take emu.index),
    emu.expander.table[name]? = predefines[name]?
  /-- What a line has equated means the expansion of its text when the line was run. -/
  table_equated : ∀ j line name text, j < emu.index → lines[j]? = some line →
    line.equation? = some (name, text) →
    ∃ value, (state j).setting.expansion text = .ok value ∧
      (state (j + 1)).expander.table[name]? = some value ∧ emu.expander.table[name]? = some value
  /-- A register that no line has set is zero. -/
  register_unset : ∀ r,
    (∀ line ∈ lines.take emu.index, ∀ text, line.assignment? ≠ some (r, text)) →
    emu.machine.registers.get r = 0
  /-- A register holds the word that the last line to set it had for it when the line was run. -/
  register_set : ∀ j line r text, j < emu.index → lines[j]? = some line →
    line.assignment? = some (r, text) →
    (∀ i later text', j < i → i < emu.index → lines[i]? = some later →
      later.assignment? ≠ some (r, text')) →
    ∃ value word, (state j).setting.expansion text = .ok value ∧
      Literal.parse? value = some word ∧ (state (j + 1)).machine.registers.get r = word ∧
      emu.machine.registers.get r = word

/-! ## Ticks -/

/-- The emulator after a number of ticks. -/
def ticked [Constant.Language] (emu : Emulator) (n : Nat) : Emulator :=
  (tickTimes n emu).1

variable {emu emu' : Emulator} {lines : List Line} {line : Line} {predefines : Table Bytes Bytes}
  {state : Nat → Emulator}

theorem take_succ_of_getElem? {α : Type} {l : List α} {n : Nat} {a : α} (h : l[n]? = some a) :
    l.take (n + 1) = l.take n ++ [a] := by
  rw [List.take_add_one, h]
  rfl

theorem mem_equatedNames_iff {name : Bytes} :
    name ∈ equatedNames lines ↔ ∃ line ∈ lines, ∃ text, line.equation? = some (name, text) := by
  simp [equatedNames]

theorem equatedNames_append (front : List Line) (line : Line) :
    equatedNames (front ++ [line]) =
      equatedNames front ++ (line.equation?.map Prod.fst).toList := by
  simp only [equatedNames, List.filterMap_append, List.filterMap_cons, List.filterMap_nil]
  cases line.equation? <;> rfl

/-- A line behind is the one that was just run, or one of those before. -/
theorem place_cases (found : lines[emu.index]? = some line) {j : Nat} {line' : Line}
    (lt : j < emu.index + 1) (there : lines[j]? = some line') :
    (j = emu.index ∧ line' = line) ∨ j < emu.index := by
  rcases Nat.lt_succ_iff_lt_or_eq.mp lt with lt | rfl
  · exact Or.inr lt
  · exact Or.inl ⟨rfl, Option.some.inj (there.symm.trans found)⟩

theorem next?_of_program (program : emu.program = some lines.toArray) :
    emu.next? = lines[emu.index]? := by
  simp [next?, Emulator.lines, program]

variable [Constant.Language]

theorem ticked_succ (emu : Emulator) (n : Nat) : emu.ticked (n + 1) = (emu.ticked n).tick.1 := by
  induction n generalizing emu with
  | zero => rfl
  | succ n ih =>
    have first : emu.ticked (n + 1 + 1) = emu.tick.1.ticked (n + 1) := rfl
    rw [first, ih]
    rfl

theorem hasTable_ticked (table : emu.HasTable) (n : Nat) : (emu.ticked n).HasTable := by
  induction n with
  | zero => exact table
  | succ n ih =>
    rw [ticked_succ]
    exact ih.tick

theorem program_tick (table : emu.HasTable) : emu.tick.1.program = emu.program := by
  have told : emu.withNarration.HasTable := table
  rcases emu.tick_cases with ⟨-, eq⟩ | ⟨line, emu', cause, -, done, eq⟩ | ⟨line, emu', -, done, eq⟩
  · rw [eq]
    rfl
  · rw [eq]
    exact (told.lineEffect done).program_eq
  · rw [eq]
    exact (told.lineEffect done).program_eq

theorem program_ticked (table : emu.HasTable) (n : Nat) :
    (emu.ticked n).program = emu.program := by
  induction n with
  | zero => rfl
  | succ n ih =>
    rw [ticked_succ, program_tick (hasTable_ticked table n), ih]

/-- An emulator at the end of its listing stays as it is from the next tick on. -/
theorem tick_of_next?_eq_none (ended : emu.next? = none) :
    emu.tick.1 = emu.withNarration ∧ emu.withNarration.tick.1 = emu.withNarration := by
  have ended' : emu.withNarration.next? = none := ended
  constructor
  · simp only [tick, ended']
  · simp only [tick, (narrated_withNarration emu).withNarration_eq, ended']

/-- Ticks go on line by line until one fails or finds no line; from then on nothing changes. -/
theorem ticked_index_or_stuck (table : emu.HasTable) (start : emu.index = 0) (n : Nat) :
    (emu.ticked n).index = n ∨ (emu.ticked n).tick.1 = emu.ticked n := by
  induction n with
  | zero => exact Or.inl start
  | succ n ih =>
    have table' := hasTable_ticked table n
    have told : (emu.ticked n).withNarration.HasTable := table'
    rw [ticked_succ]
    rcases ih with place | stuck
    · rcases (emu.ticked n).tick_cases with
        ⟨ended, -⟩ | ⟨line, emu', cause, -, -, eq⟩ | ⟨line, emu', -, done, eq⟩
      · obtain ⟨first, again⟩ := tick_of_next?_eq_none ended
        rw [first]
        exact Or.inr again
      · rw [eq]
        exact Or.inr (by rw [tick_again table' eq])
      · have same : emu'.index = (emu.ticked n).index := (told.lineEffect done).index_eq
        rw [eq]
        exact Or.inl (by rw [counted, same, place])
    · rw [stuck]
      exact Or.inr stuck

/-! ## One line more -/

section LineEffect

variable (effect : LineEffect emu line emu' (.ok ()))

include effect

theorem LineEffect.ticks_eq : emu'.ticks = emu.ticks := by
  cases effect <;> rfl

theorem LineEffect.predefines_eq : emu'.expander.predefines = emu.expander.predefines := by
  cases effect <;> rfl

/-- A line that succeeds records a result exactly if it is an expression. -/
theorem LineEffect.mem_results_iff (number : Int64) :
    number ∈ emu'.results ↔
      number ∈ emu.results ∨ (line.isExpression = true ∧ line.number = number) := by
  cases effect with
  | equated eq _ _ => simp [(Line.kind_of_equate eq).1]
  | assigned eq register _ _ => simp [(Line.kind_of_set eq register).1]
  | recorded eq _ _ =>
    have kind := (Line.kind_of_expression eq).1
    simp [kind, Std.ExtTreeMap.mem_insert, or_comm]

theorem LineEffect.table_of_equation {name text : Bytes}
    (eq : line.equation? = some (name, text)) :
    name ∉ emu.expander.table ∧
      ∃ value, emu.setting.expansion text = .ok value ∧
        emu'.expander.table = emu.expander.table.insert name value := by
  cases effect with
  | equated statement free expanded =>
    rw [(Line.kind_of_equate statement).2.1] at eq
    cases eq
    refine ⟨?_, _, expanded, Expander.table_equate _ _ _⟩
    rw [← Std.ExtTreeMap.contains_iff_mem, free]
    exact Bool.false_ne_true
  | assigned statement register _ _ =>
    rw [(Line.kind_of_set statement register).2.1] at eq
    cases eq
  | recorded statement _ _ =>
    rw [(Line.kind_of_expression statement).2.1] at eq
    cases eq

theorem LineEffect.table_of_no_equation (eq : line.equation? = none) :
    emu'.expander.table = emu.expander.table := by
  cases effect with
  | equated statement _ _ =>
    rw [(Line.kind_of_equate statement).2.1] at eq
    cases eq
  | assigned _ _ _ _ => rfl
  | recorded _ _ _ => rfl

theorem LineEffect.registers_of_assignment {r : Register} {text : Bytes}
    (eq : line.assignment? = some (r, text)) :
    ∃ value word, emu.setting.expansion text = .ok value ∧ Literal.parse? value = some word ∧
      emu'.machine.registers = emu.machine.registers.set r word := by
  cases effect with
  | equated statement _ _ =>
    rw [(Line.kind_of_equate statement).2.2] at eq
    cases eq
  | assigned statement register expanded number =>
    rw [(Line.kind_of_set statement register).2.2] at eq
    cases eq
    exact ⟨_, _, expanded, number, rfl⟩
  | recorded statement _ _ =>
    rw [(Line.kind_of_expression statement).2.2] at eq
    cases eq

theorem LineEffect.registers_of_no_assignment (eq : line.assignment? = none) :
    emu'.machine.registers = emu.machine.registers := by
  cases effect with
  | equated _ _ _ => rfl
  | assigned statement register _ _ =>
    rw [(Line.kind_of_set statement register).2.2] at eq
    cases eq
  | recorded _ _ ran => exact Machine.registers_of_clearStacks_eq (clearStacks_of_eval ran)

/-- A register that a line does not set keeps its word. -/
theorem LineEffect.register_of_other {r : Register}
    (other : ∀ text, line.assignment? ≠ some (r, text)) :
    emu'.machine.registers.get r = emu.machine.registers.get r := by
  cases found : line.assignment? with
  | none => rw [effect.registers_of_no_assignment found]
  | some assignment =>
    obtain ⟨r', text⟩ := assignment
    have ne : r ≠ r' := by
      rintro rfl
      exact other text found
    obtain ⟨_, word, -, -, registers⟩ := effect.registers_of_assignment found
    rw [registers, Registers.get_set, if_neg ne]

/-- A name that a line does not equate keeps its meaning. -/
theorem LineEffect.table_of_other {name : Bytes}
    (other : ∀ text, line.equation? ≠ some (name, text)) :
    emu'.expander.table[name]? = emu.expander.table[name]? := by
  cases found : line.equation? with
  | none => rw [effect.table_of_no_equation found]
  | some equation =>
    obtain ⟨name', text⟩ := equation
    have ne : name' ≠ name := by
      rintro rfl
      exact other text found
    obtain ⟨-, value, -, table⟩ := effect.table_of_equation found
    rw [table, Table.getElem?_put, if_neg ne]

end LineEffect

section CarriedOut

variable (h : Executed lines predefines state emu) (found : lines[emu.index]? = some line)
  (effect : LineEffect emu line emu' (.ok ()))

include h

theorem Executed.mem_table {name : Bytes}
    (mem : name ∈ equatedNames (lines.take emu.index)) : name ∈ emu.expander.table := by
  obtain ⟨line, behind, text, eq⟩ := mem_equatedNames_iff.mp mem
  obtain ⟨j, lt, rfl⟩ := List.mem_take_iff_getElem.mp behind
  have inside : j < emu.index ∧ j < lines.length := by omega
  obtain ⟨value, -, -, now⟩ := h.table_equated j _ name text inside.1
    (List.getElem?_eq_getElem inside.2) eq
  rw [Std.ExtTreeMap.mem_iff_isSome_getElem?, now]
  rfl

include effect

/-- The name that a line equates is neither predefined nor that of a line before. -/
theorem Executed.new_name {name text : Bytes} (eq : line.equation? = some (name, text)) :
    name ∉ equatedNames (lines.take emu.index) ∧ name ∉ predefines := by
  have absent := (effect.table_of_equation eq).1
  have fresh : name ∉ equatedNames (lines.take emu.index) := fun mem => absent (h.mem_table mem)
  refine ⟨fresh, ?_⟩
  rw [Std.ExtTreeMap.mem_iff_isSome_getElem?, ← h.table_other name fresh,
    ← Std.ExtTreeMap.mem_iff_isSome_getElem?]
  exact absent

/-- The names stay different from one another and from the predefines. -/
theorem Executed.names_carriedOut :
    (equatedNames (lines.take emu.index ++ [line])).Nodup ∧
      ∀ name ∈ equatedNames (lines.take emu.index ++ [line]), name ∉ predefines := by
  rw [equatedNames_append]
  cases eq : line.equation? with
  | none =>
    simp only [Option.map_none, Option.toList_none, List.append_nil]
    exact ⟨h.names_nodup, h.names_new⟩
  | some equation =>
    obtain ⟨name, text⟩ := equation
    obtain ⟨fresh, unknown⟩ := h.new_name effect eq
    simp only [Option.map_some, Option.toList_some]
    constructor
    · rw [List.nodup_append]
      refine ⟨h.names_nodup, List.nodup_singleton _, ?_⟩
      intro name' mem name'' single same
      rw [List.mem_singleton.mp single] at same
      exact fresh (same ▸ mem)
    · intro name' mem
      rcases List.mem_append.mp mem with mem | mem
      · exact h.names_new name' mem
      · rw [List.mem_singleton.mp mem]
        exact unknown

theorem Executed.table_other_carriedOut {name : Bytes}
    (fresh : name ∉ equatedNames (lines.take emu.index ++ [line])) :
    emu'.expander.table[name]? = predefines[name]? := by
  rw [mem_equatedNames_iff] at fresh
  have other : ∀ text, line.equation? ≠ some (name, text) := fun text eq =>
    fresh ⟨line, List.mem_append_right _ (List.mem_singleton_self line), text, eq⟩
  have before : name ∉ equatedNames (lines.take emu.index) := by
    rw [mem_equatedNames_iff]
    rintro ⟨line', mem, text, eq⟩
    exact fresh ⟨line', List.mem_append_left _ mem, text, eq⟩
  rw [effect.table_of_other other, h.table_other name before]

theorem Executed.register_unset_carriedOut {r : Register}
    (never : ∀ line' ∈ lines.take emu.index ++ [line], ∀ text, line'.assignment? ≠ some (r, text)) :
    emu'.machine.registers.get r = 0 := by
  have other := never line (List.mem_append_right _ (List.mem_singleton_self line))
  have before := h.register_unset r fun line' mem => never line' (List.mem_append_left _ mem)
  rw [effect.register_of_other other, before]

variable (here : ∀ text, (state emu.index).setting.expansion text = emu.setting.expansion text)
  (next : state (emu.index + 1) = emu'.counted)

include found here next

theorem Executed.table_equated_carriedOut {j : Nat} {line' : Line} {name text : Bytes}
    (lt : j < emu.index + 1) (there : lines[j]? = some line')
    (eq : line'.equation? = some (name, text)) :
    ∃ value, (state j).setting.expansion text = .ok value ∧
      (state (j + 1)).expander.table[name]? = some value ∧
      emu'.expander.table[name]? = some value := by
  rcases place_cases found lt there with ⟨rfl, rfl⟩ | lt
  · obtain ⟨-, value, expanded, table⟩ := effect.table_of_equation eq
    have now : emu'.expander.table[name]? = some value := by
      rw [table, Table.getElem?_put, if_pos rfl]
    exact ⟨value, (here text).trans expanded, by rw [next]; exact now, now⟩
  · obtain ⟨value, expanded, then', now⟩ := h.table_equated j line' name text lt there eq
    -- the new line equates another name, since this one is taken
    have other : ∀ text', line.equation? ≠ some (name, text') := by
      intro text' eq'
      apply (effect.table_of_equation eq').1
      rw [Std.ExtTreeMap.mem_iff_isSome_getElem?, now]
      rfl
    exact ⟨value, expanded, then', (effect.table_of_other other).trans now⟩

theorem Executed.register_set_carriedOut {j : Nat} {line' : Line} {r : Register} {text : Bytes}
    (lt : j < emu.index + 1) (there : lines[j]? = some line')
    (eq : line'.assignment? = some (r, text))
    (last : ∀ i later text', j < i → i < emu.index + 1 → lines[i]? = some later →
      later.assignment? ≠ some (r, text')) :
    ∃ value word, (state j).setting.expansion text = .ok value ∧
      Literal.parse? value = some word ∧ (state (j + 1)).machine.registers.get r = word ∧
      emu'.machine.registers.get r = word := by
  rcases place_cases found lt there with ⟨rfl, rfl⟩ | lt
  · obtain ⟨value, word, expanded, number, registers⟩ := effect.registers_of_assignment eq
    have now : emu'.machine.registers.get r = word := by
      rw [registers, Registers.get_set, if_pos rfl]
    exact ⟨value, word, (here text).trans expanded, number, by rw [next]; exact now, now⟩
  · have other : ∀ text', line.assignment? ≠ some (r, text') := fun text' =>
      last emu.index line text' lt (Nat.lt_succ_self _) found
    obtain ⟨value, word, expanded, number, then', now⟩ :=
      h.register_set j line' r text lt there eq fun i later text' gt lt' =>
        last i later text' gt (Nat.lt_succ_of_lt lt')
    exact ⟨value, word, expanded, number, then', (effect.register_of_other other).trans now⟩

/-- **One line more.**  A line that succeeds adds to an emulator what `Executed` says of it, and
leaves alone what the emulator owes to the lines before. -/
theorem Executed.carriedOut : Executed lines predefines state emu'.counted := by
  have index : emu'.counted.index = emu.index + 1 := congrArg (· + 1) effect.index_eq
  have taken := take_succ_of_getElem? found
  have inside : emu.index < lines.length := (List.getElem?_eq_some_iff.mp found).1
  obtain ⟨nodup, unknown⟩ := h.names_carriedOut effect
  constructor
  case hasTable => exact (effect.hasTable h.hasTable).counted
  case predefines_eq => exact effect.predefines_eq.trans h.predefines_eq
  all_goals rw [index]
  case ticks_eq => exact congrArg (· + 1) (effect.ticks_eq.trans h.ticks_eq)
  case index_le => exact inside
  case reached =>
    intro j le
    rcases Nat.le_succ_iff.mp le with le | rfl
    · exact h.reached j le
    · rw [next, index]
  case results_iff =>
    intro number
    have recorded : number ∈ emu'.counted.results ↔ _ := effect.mem_results_iff number
    rw [recorded, h.results_iff, taken]
    simp only [List.mem_append, List.mem_singleton, or_and_right, exists_or, exists_eq_left]
  case names_nodup => rwa [taken]
  case names_new => rwa [taken]
  case table_other =>
    rw [taken]
    exact fun name fresh => h.table_other_carriedOut effect fresh
  case table_equated =>
    exact fun j line' name text lt there eq =>
      h.table_equated_carriedOut found effect here next lt there eq
  case register_unset =>
    rw [taken]
    exact fun r never => h.register_unset_carriedOut effect never
  case register_set =>
    exact fun j line' r text lt there eq last =>
      h.register_set_carriedOut found effect here next lt there eq last

end CarriedOut

/-- A tick that changes nothing that `Executed` speaks of keeps it. -/
theorem Executed.congr (h : Executed lines predefines state emu) (table : emu'.HasTable)
    (index : emu'.index = emu.index) (ticks : emu'.ticks = emu.ticks)
    (results : emu'.results = emu.results)
    (expander : emu'.expander.table = emu.expander.table)
    (base : emu'.expander.predefines = emu.expander.predefines)
    (registers : emu'.machine.registers = emu.machine.registers) :
    Executed lines predefines state emu' := by
  constructor
  · exact table
  · rw [ticks, index]
    exact h.ticks_eq
  all_goals simp only [index, results, expander, base, registers]
  · exact h.index_le
  · exact h.reached
  · exact h.results_iff
  · exact h.names_nodup
  · exact h.names_new
  · exact h.predefines_eq
  · exact h.table_other
  · exact h.table_equated
  · exact h.register_unset
  · exact h.register_set

/-! ## Whole runs -/

theorem executed_load_reset (emu : Emulator) (lines : List Line) (state : Nat → Emulator)
    (start : state 0 = (emu.load lines).reset) :
    Executed lines emu.expander.predefines state (emu.load lines).reset := by
  constructor
  case hasTable => rfl
  case ticks_eq => rfl
  case index_le => exact Nat.zero_le _
  case reached =>
    intro j le
    obtain rfl := Nat.le_zero.mp le
    rw [start]
    rfl
  case results_iff =>
    intro number
    simp [reset]
  case names_nodup => exact List.nodup_nil
  case names_new => exact List.forall_mem_nil _
  case predefines_eq => rfl
  case table_other => exact fun _ _ => rfl
  case table_equated => exact fun j _ _ _ lt => absurd lt (Nat.not_lt_zero j)
  case register_unset => exact fun r _ => Registers.get_zero r
  case register_set => exact fun j _ _ _ lt => absurd lt (Nat.not_lt_zero j)

/-- A tick keeps `Executed`, given that it is the tick of the emulator's place or changes
nothing. -/
theorem Executed.tick (h : Executed lines predefines state emu)
    (program : emu.program = some lines.toArray) {n : Nat} (here : state n = emu)
    (next : state (n + 1) = emu.tick.1) (moving : emu.index = n ∨ emu.tick.1 = emu) :
    Executed lines predefines state emu.tick.1 := by
  have told : emu.withNarration.HasTable := h.hasTable
  have h' : Executed lines predefines state emu.withNarration :=
    h.congr told rfl rfl rfl rfl rfl rfl
  rcases emu.tick_cases with
    ⟨-, eq⟩ | ⟨line, emu', cause, -, -, eq⟩ | ⟨line, emu', found, done, eq⟩
  · rw [eq]
    exact h'
  · -- a tick that fails changes nothing but the words on the stacks
    obtain ⟨-, -, machine, -, -, rfl, same, -⟩ := tick_error_frame h.hasTable eq
    have registers : machine.registers = emu.withNarration.machine.registers :=
      Machine.registers_of_clearStacks_eq same
    rw [eq]
    exact h'.congr told rfl rfl rfl rfl rfl registers
  · have effect := told.lineEffect done
    have index : emu'.index = emu.index := effect.index_eq
    rw [eq] at moving next ⊢
    have place : emu.index = n := by
      rcases moving with place | stuck
      · exact place
      · have moved : emu'.index + 1 = emu.index := congrArg Emulator.index stuck
        omega
    subst place
    refine h'.carriedOut ?_ effect ?_ next
    · exact (next?_of_program program).symm.trans found
    · intro text
      show (state emu.index).setting.expansion text = _
      rw [here]
      rfl

/-- **An emulator is what the lines behind it make it.**  Load a listing into any emulator, reset it
and tick it any number of times, whether ticks fail or find no line left.  Then its place, its
count, its results, its equates and its registers are those of the lines in front of its place. -/
theorem executed_ticked (emu : Emulator) (lines : List Line) (n : Nat) :
    Executed lines emu.expander.predefines (ticked (emu.load lines).reset)
      (ticked (emu.load lines).reset n) := by
  have table : (emu.load lines).reset.HasTable := rfl
  induction n with
  | zero => exact executed_load_reset emu lines _ rfl
  | succ n ih =>
    have next := ticked_succ (emu.load lines).reset n
    have moving := ticked_index_or_stuck table rfl n
    have kept := ih.tick (program_ticked table n) rfl next moving
    rw [next]
    exact kept

end Emulator

end Rpn
