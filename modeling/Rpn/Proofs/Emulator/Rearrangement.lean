import Mathlib.Data.List.Perm.Subperm
import Rpn.Constant.Interpreter
import Rpn.Proofs.Emulator.Setting
import Rpn.Proofs.Listing

/-!
# Expressions do not interfere

An expression leaves the setting that it finds, so that it does not matter to any other line whether
it runs, or when.

* `Listing.Rearranged` — some expressions are dropped, and the others rearranged between the
  directives that they stand between;
* `Setting.Steps.rearranged` — lines that all succeed do so rearranged, in the same settings;
* `Emulator.run_rearranged` — a listing that runs without failure does so rearranged, with the same
  registers, the same equates and the same results for the lines that are left.
-/

namespace Rpn

/-- Whether a line is an expression. -/
def Line.isExpression (line : Line) : Bool :=
  match line.statement with
  | .expression _ => true
  | .directive _ _ => false

/-- A listing with some of its expressions dropped, and the others rearranged within each block
between two directives.  All directives stay, in their order. -/
inductive Listing.Rearranged : List Line → List Line → Prop
  | block {block block' : List Line} :
      (∀ line ∈ block, line.isExpression = true) → block'.Subperm block → Rearranged block block'
  | directive {block block' lines lines' : List Line} {line : Line} :
      (∀ line ∈ block, line.isExpression = true) → block'.Subperm block →
      line.isExpression = false → Rearranged lines lines' →
      Rearranged (block ++ line :: lines) (block' ++ line :: lines')

theorem Listing.Rearranged.subset {lines lines' : List Line} (h : Rearranged lines lines') :
    lines' ⊆ lines := by
  induction h with
  | block _ sub => exact sub.subset
  | directive _ sub _ _ ih =>
    exact List.append_subset.mpr ⟨List.subset_append_of_subset_left _ sub.subset,
      List.subset_append_of_subset_right _ (List.cons_subset_cons _ ih)⟩

namespace Setting

open Listing (Rearranged)

variable [Constant.Language] {s s' : Setting} {line : Line} {lines lines' : List Line}
  {entries : List (Int64 × Int32)}

/-! ## Blocks of expressions -/

theorem isExpression_of_result? {entry : Int64 × Int32} (h : s.result? line = some entry) :
    line.isExpression = true ∧ entry.1 = line.number := by
  obtain ⟨text, value, eq, -, rfl⟩ := exists_of_result?_eq_some h
  rw [Line.isExpression, eq]
  exact ⟨rfl, rfl⟩

/-- An expression that succeeds has a value, and leaves the setting that it finds. -/
theorem Step.of_isExpression (step : Step s line s') (h : line.isExpression = true) :
    s' = s ∧ (s.result? line).isSome = true := by
  cases step with
  | expression entry => exact ⟨rfl, Option.isSome_of_eq_some entry⟩
  | equate eq _ _ =>
    rw [Line.isExpression, eq] at h
    cases h
  | set eq _ _ _ =>
    rw [Line.isExpression, eq] at h
    cases h

/-- A directive records no result. -/
theorem result?_of_not_isExpression (h : line.isExpression = false) : s.result? line = none := by
  cases found : s.result? line with
  | none => rfl
  | some entry =>
    rw [(isExpression_of_result? found).1] at h
    cases h

/-- Expressions that all succeed leave the setting that they find, and each records its result
there. -/
theorem Steps.of_isExpression (steps : Steps s lines entries s')
    (h : ∀ line ∈ lines, line.isExpression = true) :
    s' = s ∧ entries = lines.filterMap s.result? ∧
      ∀ line ∈ lines, (s.result? line).isSome = true := by
  induction steps with
  | nil => exact ⟨rfl, rfl, List.forall_mem_nil _⟩
  | @cons s s₁ s₂ line lines entries step _ ih =>
    obtain ⟨first, rest⟩ := List.forall_mem_cons.mp h
    obtain ⟨rfl, found⟩ := step.of_isExpression first
    obtain ⟨rfl, rfl, all⟩ := ih rest
    refine ⟨rfl, ?_, List.forall_mem_cons.mpr ⟨found, all⟩⟩
    obtain ⟨entry, eq⟩ := Option.isSome_iff_exists.mp found
    rw [List.filterMap_cons_some eq, eq]
    rfl

/-- Lines that all have results in a setting succeed there in any order. -/
theorem steps_of_isSome (h : ∀ line ∈ lines, (s.result? line).isSome = true) :
    Steps s lines (lines.filterMap s.result?) s := by
  induction lines with
  | nil => exact .nil
  | cons line lines ih =>
    obtain ⟨first, rest⟩ := List.forall_mem_cons.mp h
    obtain ⟨entry, eq⟩ := Option.isSome_iff_exists.mp first
    have steps := Steps.cons (.expression eq) (ih rest)
    rw [eq] at steps
    rw [List.filterMap_cons_some eq]
    exact steps

/-- A block of expressions succeeds with lines dropped and rearranged. -/
theorem Steps.subperm (steps : Steps s lines entries s')
    (h : ∀ line ∈ lines, line.isExpression = true) (sub : lines'.Subperm lines) :
    s' = s ∧ ∃ entries', Steps s lines' entries' s ∧ entries'.Subperm entries := by
  obtain ⟨rfl, rfl, all⟩ := steps.of_isExpression h
  refine ⟨rfl, _, steps_of_isSome fun line mem => all line (sub.subset mem), ?_⟩
  obtain ⟨kept, perm, sublist⟩ := sub
  exact ⟨kept.filterMap s'.result?, perm.filterMap _, sublist.filterMap _⟩

/-! ## Whole listings -/

/-- **Lines that all succeed do so rearranged.**  Every directive finds the setting that it found
before, and the results are some of those before. -/
theorem Steps.rearranged (h : Rearranged lines lines') (steps : Steps s lines entries s') :
    ∃ entries', Steps s lines' entries' s' ∧ entries'.Subperm entries := by
  induction h generalizing s entries with
  | block all sub =>
    obtain ⟨rfl, found⟩ := steps.subperm all sub
    exact found
  | @directive block block' lines lines' line all sub _ _ ih =>
    obtain ⟨front, back, s₁, before, after, rfl⟩ := steps.of_append
    obtain ⟨rfl, front', before', subFront⟩ := before.subperm all sub
    cases after with
    | cons step rest =>
      obtain ⟨back', rest', subBack⟩ := ih rest
      exact ⟨_, before'.append (.cons step rest'), subFront.append ((List.Subperm.refl _).append subBack)⟩

/-- The results are those of the expressions, by their numbers. -/
theorem Steps.map_fst (steps : Steps s lines entries s') :
    entries.map Prod.fst = (lines.filter Line.isExpression).map Line.number := by
  induction steps with
  | nil => rfl
  | @cons s s₁ s₂ line lines entries step _ ih =>
    cases kind : line.isExpression with
    | true =>
      obtain ⟨entry, eq⟩ := Option.isSome_iff_exists.mp (step.of_isExpression kind).2
      rw [List.filter_cons_of_pos kind, List.map_cons, ← ih, ← (isExpression_of_result? eq).2, eq]
      rfl
    | false =>
      rw [List.filter_cons_of_neg (by rw [kind]; exact Bool.false_ne_true), ← ih,
        result?_of_not_isExpression kind]
      rfl

end Setting

/-! ## Tables of results -/

namespace Table

variable {entries entries' : List (Int64 × Int32)} {k : Int64} {value : Int32}

theorem getElem?_insertMany_of_mem (distinct : (entries.map Prod.fst).Nodup)
    (mem : (k, value) ∈ entries) :
    ((∅ : Table Int64 Int32).insertMany entries)[k]? = some value := by
  have apart : entries.Pairwise fun a b => ¬ compare a.1 b.1 = .eq :=
    (List.pairwise_map.mp distinct).imp fun ne eq => ne (Std.LawfulEqOrd.compare_eq_iff_eq.mp eq)
  exact Std.ExtTreeMap.getElem?_insertMany_list_of_mem Std.ReflOrd.compare_self apart mem

theorem getElem?_insertMany_of_not_mem (h : k ∉ entries.map Prod.fst) :
    ((∅ : Table Int64 Int32).insertMany entries)[k]? = none := by
  have absent : (entries.map Prod.fst).contains k = false := by
    rw [List.contains_eq_mem]
    exact decide_eq_false h
  rw [Std.ExtTreeMap.getElem?_insertMany_list_of_contains_eq_false absent]
  exact Std.ExtTreeMap.getElem?_empty

/-- A table that is filled with some of the entries of another is that other one restricted to
their keys. -/
theorem insertMany_eq_filter {numbers : List Int64} (distinct : (entries.map Prod.fst).Nodup)
    (sub : entries'.Subperm entries)
    (kept : ∀ k ∈ entries.map Prod.fst, k ∈ numbers ↔ k ∈ entries'.map Prod.fst) :
    (∅ : Table Int64 Int32).insertMany entries' =
      ((∅ : Table Int64 Int32).insertMany entries).filter fun k _ => decide (k ∈ numbers) := by
  have distinct' : (entries'.map Prod.fst).Nodup := by
    obtain ⟨l, perm, sublist⟩ := sub
    exact (perm.map _).nodup_iff.mp ((sublist.map _).nodup distinct)
  refine Std.ExtTreeMap.ext_getElem? fun k => ?_
  rw [Std.ExtTreeMap.getElem?_filter']
  by_cases mem' : k ∈ entries'.map Prod.fst
  · obtain ⟨⟨k, value⟩, found', rfl⟩ := List.mem_map.mp mem'
    have found := sub.subset found'
    have number := (kept k (List.mem_map_of_mem found)).mpr mem'
    rw [getElem?_insertMany_of_mem distinct' found', getElem?_insertMany_of_mem distinct found,
      Option.filter_some, if_pos (decide_eq_true number)]
  · rw [getElem?_insertMany_of_not_mem mem']
    by_cases mem : k ∈ entries.map Prod.fst
    · -- The entry is among those that were left out, so that its key is none of the numbers.
      have absent : k ∉ numbers := fun number => mem' ((kept k mem).mp number)
      cases ((∅ : Table Int64 Int32).insertMany entries)[k]? with
      | none => rfl
      | some value => rw [Option.filter_some, decide_eq_false absent, if_neg Bool.false_ne_true]
    · rw [getElem?_insertMany_of_not_mem mem, Option.filter_none]

end Table

/-! ## Runs -/

namespace Emulator

open Listing Setting

variable {emu emu₁ : Emulator} {lines lines' : List Line}

/-- Where the numbers of lines differ, that of an expression is left exactly if the expression is. -/
theorem mem_number_iff {lines lines' : List Line} (distinct : (lines.map Line.number).Nodup)
    (subset : lines' ⊆ lines) {k : Int64}
    (mem : k ∈ (lines.filter Line.isExpression).map Line.number) :
    k ∈ lines'.map Line.number ↔ k ∈ (lines'.filter Line.isExpression).map Line.number := by
  obtain ⟨line, found, rfl⟩ := List.mem_map.mp mem
  obtain ⟨within, kind⟩ := List.mem_filter.mp found
  constructor
  · intro h
    obtain ⟨line', found', same⟩ := List.mem_map.mp h
    obtain rfl := List.inj_on_of_nodup_map distinct (subset found') within same
    exact List.mem_map_of_mem (List.mem_filter.mpr ⟨found', kind⟩)
  · intro h
    obtain ⟨line', found', same⟩ := List.mem_map.mp h
    exact List.mem_map.mpr ⟨line', (List.mem_filter.mp found').1, same⟩

section Language

variable [Constant.Language]

/-- A listing that is run on an emulator that was just reset runs all its lines. -/
theorem run_load_reset (emu : Emulator) (lines : List Line) :
    (emu.reset.load lines).run = (emu.reset.load lines).withNarration.runLines lines := by
  have table : (emu.reset.load lines).HasTable := rfl
  exact table.run_eq

/-- **Expressions do not interfere.**  If a listing runs without failure on an emulator that was
just reset, so it does with expressions dropped and rearranged between the directives: it ends with
the same registers and equates, and with the results of the lines that are left.  Results are told
apart by the numbers of their lines; these are words of 64 bits, so that no two lines have the same
as long as there are no more lines than words. -/
theorem run_rearranged {text : Bytes} (read : parse text = .ok lines)
    (rearranged : Rearranged lines lines') (done : (emu.reset.load lines).run = (emu₁, .ok ())) :
    ∃ emu₂, (emu.reset.load lines').run = (emu₂, .ok ()) ∧
      emu₂.machine.registers = emu₁.machine.registers ∧
      emu₂.expander.equates = emu₁.expander.equates ∧
      ((physicalLines text).length ≤ 2 ^ 64 →
        emu₂.results = emu₁.results.filter fun k _ => decide (k ∈ lines'.map Line.number)) := by
  have table : ∀ ls, (emu.reset.load ls).withNarration.HasTable := fun _ => rfl
  rw [run_load_reset] at done
  obtain ⟨entries, steps, results₁⟩ := (table lines).steps_of_runLines done
  obtain ⟨entries', steps', sub⟩ := steps.rearranged rearranged
  obtain ⟨emu₂, done', same, results₂⟩ := (table lines').runLines_of_steps steps'
  refine ⟨emu₂, ?_, congrArg (·.machine.registers) same, congrArg (·.expander.equates) same, ?_⟩
  · rw [run_load_reset]
    exact done'
  · intro short
    have distinct := nodup_number_of_parse read short
    rw [results₁, results₂]
    refine Table.insertMany_eq_filter ?_ sub ?_
    · rw [steps.map_fst]
      exact (List.filter_sublist.map _).nodup distinct
    · intro k mem
      rw [steps.map_fst] at mem
      rw [steps'.map_fst]
      exact mem_number_iff distinct rearranged.subset mem

end Language

attribute [local instance] Constant.interpreter

/-- Two of three expressions behind a directive, the later one first. -/
theorem run_rearranged_of_three :
    let line (number : Int64) (text : String) : Line := ⟨number, .expression (ascii text)⟩
    let set : Line := ⟨1, .directive (ascii ".set") [ascii "eax", ascii "5"]⟩
    let lines := [set, line 2 "eax", line 3 "7", line 4 "eax,1,+"]
    let lines' := [set, line 4 "eax,1,+", line 2 "eax"]
    parse (ascii ".set eax 5\neax\n7\neax,1,+") = .ok lines ∧ Rearranged lines lines' ∧
      (new.reset.load lines).run.2 = .ok () ∧
      ∃ emu₂, (new.reset.load lines').run = (emu₂, .ok ()) ∧
        emu₂.results =
          (new.reset.load lines).run.1.results.filter fun k _ => decide (k ∈ [1, 4, 2]) := by
  intro line set lines lines'
  have read : parse (ascii ".set eax 5\neax\n7\neax,1,+") = .ok lines := by rfl
  have rearranged : Rearranged lines lines' :=
    .directive (List.forall_mem_nil _) (.refl []) rfl (.block (by decide) (by decide))
  have answer : (new.reset.load lines).run.2 = .ok () := by decide +kernel
  have done : (new.reset.load lines).run = ((new.reset.load lines).run.1, .ok ()) := by
    rw [← answer]
  obtain ⟨emu₂, done', -, -, results⟩ := run_rearranged read rearranged done
  exact ⟨read, rearranged, answer, emu₂, done', results (by decide)⟩

end Emulator

end Rpn
