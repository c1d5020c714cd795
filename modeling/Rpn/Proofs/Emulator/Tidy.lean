import Rpn.Constant.Interpreter
import Rpn.Proofs.Emulator.Reset
import Rpn.Proofs.Expander.Delimiter
import Rpn.Proofs.Expander.Items
import Rpn.Proofs.Tokens.Tidy

/-!
# Tidy expansions

Empty tokens are dropped from an expression before equates are replaced.  So an expansion is tidy as
long as no equate stands for nothing, also where equates are made of equates; and an equate that
stands for nothing leaves a comma that divides nothing.

* `Expander.ExpandsTidily` — what it is for all expansions to be tidy;
* `Expander.tidy_iff_of_expandWith` — when an expansion is tidy;
* `Expander.TidyTexts` — what the texts of equates are like, with `TidyTexts.expandWith` for what is
  expanded by them and `TidyTexts.insert` for one equate more;
* `Emulator.Reachable.tidyTexts` — the equates of every emulator in use are such;
* `Emulator.expansions_tidy` — when expansions are tidy, and when not.
-/

namespace Rpn

namespace Expander

variable {equates : Table Bytes Bytes} {expr folded out name value : Bytes}

/-- No equate stands for nothing. -/
def NoneEmpty (equates : Table Bytes Bytes) : Prop :=
  ∀ name : Bytes, equates[name]? ≠ some []

/-- The texts of equates hold no NUL, and are neat unless some equate stands for nothing. -/
structure TidyTexts (equates : Table Bytes Bytes) : Prop where
  nulFree : NulFree equates
  neat : NoneEmpty equates → ∀ name text : Bytes, equates[name]? = some text → Neat 44 text

/-- A text without a NUL is tidy exactly if it is joined from its tokens. -/
theorem tidy_iff_intercalate_tokens (noNul : (0 : UInt8) ∉ out) :
    Tidy 44 out ↔ [44].intercalate (tokens 44 out) = out := by
  have same : tokens 44 out = runs 44 out := by
    rw [tokens, beforeNul_of_not_mem noNul]
    rfl
  rw [same]
  exact tidy_iff_intercalate_runs noNul

/-- A token is replaced by a neat text if all equates are neat. -/
theorem neat_replacement (neat : ∀ name text : Bytes, equates[name]? = some text → Neat 44 text)
    {token : Bytes} (mem : token ∈ tokens 44 folded) : Neat 44 (replacement equates token) := by
  rw [replacement]
  cases named : equates[token]? with
  | none => exact neat_of_isToken (isToken_of_mem_tokens mem)
  | some text => exact neat token text named

theorem separates_comma : Separates 44 :=
  ⟨by decide, by decide, by decide, by decide, by decide, by decide, by decide, by decide⟩

/-- An equate more: its text holds no NUL, and is tidy if no equate stood for nothing before. -/
theorem TidyTexts.insert (texts : TidyTexts equates) (free : equates[name]? = none)
    (noNul : 0 ∉ value) (tidy : NoneEmpty equates → Tidy 44 value) :
    TidyTexts (equates.insert name value) where
  nulFree := by
    intro name' text found
    rw [Table.getElem?_put] at found
    split at found
    · obtain rfl := Option.some.inj found
      exact noNul
    · exact texts.nulFree name' text found
  neat := by
    intro noneEmpty name' text found
    have before : NoneEmpty equates := by
      intro other empty
      have ne : name ≠ other := by
        rintro rfl
        rw [free] at empty
        cases empty
      exact noneEmpty other (by rw [Table.getElem?_put, if_neg ne, empty])
    rw [Table.getElem?_put] at found
    split at found
    · next same =>
      obtain rfl := Option.some.inj found
      refine ⟨tidy before, ?_⟩
      rintro rfl
      exact noneEmpty name (by rw [Table.getElem?_put, if_pos rfl])
    · exact texts.neat before name' text found

variable [Constant.Language]

/-- Whatever an expression expands to is tidy and holds no NUL, and so is joined from its tokens. -/
def ExpandsTidily (ex : Expander) : Prop :=
  ∀ expr out, (ex.expand 44 expr).2 = .ok out →
    Tidy 44 out ∧ 0 ∉ out ∧ [44].intercalate (tokens 44 out) = out

/-! ## Expansions -/

/-- An expansion is tidy exactly if it is empty, or every token is replaced by a neat text. -/
theorem tidy_iff_of_expandWith (expanded : expandWith equates 44 expr = .ok out)
    (folding : foldConstants equates (resolveQuotes expr) = .ok folded) :
    Tidy 44 out ↔
      out = [] ∨ ∀ token ∈ tokens 44 folded, Neat 44 (replacement equates token) := by
  obtain ⟨folded', folding', rfl⟩ := exists_of_expandWith_ok expanded
  obtain rfl : folded = folded' := Except.ok.inj (folding.symm.trans folding')
  rw [substitute_of_lt (by decide)]
  have comma : effectiveDelimiter 44 = 44 := rfl
  rw [comma, tidy_intercalate_iff, List.forall_mem_map]

theorem not_mem_of_expandWith (nulFree : NulFree equates)
    (expanded : expandWith equates 44 expr = .ok out) : 0 ∉ out := by
  obtain ⟨folded, -, rfl⟩ := exists_of_expandWith_ok expanded
  exact nulFree.not_mem_substitute (by decide) folded

theorem TidyTexts.expandWith (texts : TidyTexts equates)
    (expanded : expandWith equates 44 expr = .ok out) :
    0 ∉ out ∧ (NoneEmpty equates → Tidy 44 out) := by
  refine ⟨not_mem_of_expandWith texts.nulFree expanded, fun noneEmpty => ?_⟩
  obtain ⟨folded, folding, -⟩ := exists_of_expandWith_ok expanded
  rw [tidy_iff_of_expandWith expanded folding]
  exact Or.inr fun token mem => neat_replacement (texts.neat noneEmpty) mem

/-- Two equates that stand for nothing, with a comma between, leave the comma. -/
theorem expandWith_of_empty (empty : equates[name]? = some []) (isToken : IsToken 44 name)
    (noQuote : 39 ∉ name) (noConstant : ¬ [36, 40] <:+: name) :
    Expander.expandWith equates 44 (name ++ 44 :: name) = .ok [44] := by
  have item : Item equates 44 name name :=
    .word isToken.nonempty isToken.no_delimiter isToken.no_nul noQuote noConstant
  have folding : foldConstants equates (resolveQuotes (name ++ 44 :: name)) =
      .ok (name ++ 44 :: name) := by
    have each : ∀ item ∈ [(name, name), (name, name)], Item equates 44 item.1 item.2 := by
      simpa using item
    simpa using foldConstants_resolveQuotes_items separates_comma each
  have split : tokens 44 (name ++ 44 :: name) = [name, name] := by
    have each : ∀ word ∈ [name, name], IsToken (effectiveDelimiter 44) word := by
      simpa using (show IsToken (effectiveDelimiter 44) name from isToken)
    simpa [effectiveDelimiter] using tokens_intercalate 44 each
  have gone : replacement equates name = [] := by rw [replacement, empty, Option.getD_some]
  rw [Expander.expandWith, folding]
  show Except.ok (substitute equates 44 (name ++ 44 :: name)) = _
  rw [substitute_of_lt (by decide), split, List.map_cons, List.map_singleton, gone]
  rfl

/-! ## Equates -/

end Expander

namespace Emulator

open Expander (NoneEmpty TidyTexts ExpandsTidily)

variable {emu emu' : Emulator} {line : Line} {answer : Except Error Unit}

theorem InUse.delimiter_eq (h : emu.InUse) : emu.machine.delimiter = 44 :=
  congrArg Machine.delimiter h.machine_reset

theorem tidyTexts_new : TidyTexts new.expander.table := by
  have all : ∀ entry ∈ new.expander.table.toList, 0 ∉ entry.2 ∧ Neat 44 entry.2 := by
    decide +kernel
  have each : ∀ name text : Bytes, new.expander.table[name]? = some text →
      0 ∉ text ∧ Neat 44 text := fun name text found =>
    all (name, text) (Std.ExtTreeMap.mem_toList_iff_getElem?_eq_some.mpr found)
  exact ⟨fun name text found => (each name text found).1,
    fun _ name text found => (each name text found).2⟩

section Language

variable [Constant.Language]

/-- An emulator in use whose equates have such texts. -/
structure Tidying (emu : Emulator) : Prop where
  used : emu.InUse
  texts : TidyTexts emu.expander.table

theorem Tidying.lineEffect (h : emu.Tidying) (effect : LineEffect emu line emu' answer) :
    emu'.Tidying where
  used := h.used.lineEffect effect
  texts := by
    cases effect with
    | refused _ => exact h.texts
    | failed _ _ _ => exact h.texts
    | @equated name text value rest _ free expanded =>
      have absent : emu.expander.table[name]? = none := by
        refine Std.ExtTreeMap.getElem?_eq_none ?_
        rw [← Std.ExtTreeMap.contains_iff_mem, free]
        exact Bool.false_ne_true
      have delimiter : emu.setting.machine.delimiter = 44 := h.used.delimiter_eq
      rw [Setting.expansion, delimiter] at expanded
      obtain ⟨noNul, tidy⟩ := h.texts.expandWith expanded
      rw [Expander.table_equate]
      exact h.texts.insert absent noNul tidy
    | assigned _ _ _ _ => exact h.texts
    | recorded _ _ _ => exact h.texts

theorem Tidying.tick (h : emu.Tidying) : emu.tick.1.Tidying :=
  h.used.hasTable.tick_of_lineEffect ⟨h.used.withNarration, h.texts⟩ Tidying.lineEffect
    fun tidying => ⟨tidying.used.counted, tidying.texts⟩

theorem Reachable.tidying (h : Reachable emu) : emu.Tidying := by
  induction h with
  | new => exact ⟨inUse_new, tidyTexts_new⟩
  | load reachable read ih => exact ⟨(Reachable.load reachable read).inUse, ih.texts⟩
  | tick _ ih => exact ih.tick
  | run _ ih => exact runFor_induction (fun _ tidying => tidying.tick) ih _
  | reset reachable _ =>
    refine ⟨reachable.reset.inUse, ?_⟩
    rw [reachable.founded.reset_eq]
    exact tidyTexts_new

/-- **Expansions are tidy as long as no equate stands for nothing.**  On an emulator in use no
expansion holds a NUL, nor does the text of an equate, and an expansion is tidy exactly if joining its
tokens gives it back.  It is tidy exactly if it is empty or every token of the folded expression is
replaced by a neat text.  If no equate stands for nothing, all equates have neat texts, and all
expansions are tidy.  If some equate does, under a name that can be written as a token, there is an
expansion that is not tidy. -/
theorem expansions_tidy {emu : Emulator} (reachable : Reachable emu) :
    let equates := emu.expander.table
    (∀ name text : Bytes, equates[name]? = some text → 0 ∉ text) ∧
    (∀ expr out, (emu.expander.expand 44 expr).2 = .ok out →
      0 ∉ out ∧ (Tidy 44 out ↔ [44].intercalate (tokens 44 out) = out) ∧
      ∃ folded, Expander.foldConstants equates (Expander.resolveQuotes expr) = .ok folded ∧
        (Tidy 44 out ↔
          out = [] ∨ ∀ token ∈ tokens 44 folded, Neat 44 (Expander.replacement equates token))) ∧
    (NoneEmpty equates → ExpandsTidily emu.expander ∧
      ∀ name text : Bytes, equates[name]? = some text → Neat 44 text) ∧
    ∀ name : Bytes, equates[name]? = some [] → IsToken 44 name → 39 ∉ name →
      ¬ [36, 40] <:+: name → ¬ ExpandsTidily emu.expander := by
  intro equates
  have texts : TidyTexts equates := reachable.tidying.texts
  refine ⟨texts.nulFree, ?_, ?_, ?_⟩
  · intro expr out expanded
    have noNul := (texts.expandWith expanded).1
    obtain ⟨folded, folding, -⟩ := Expander.exists_of_expandWith_ok expanded
    exact ⟨noNul, Expander.tidy_iff_intercalate_tokens noNul, folded, folding,
      Expander.tidy_iff_of_expandWith expanded folding⟩
  · intro noneEmpty
    refine ⟨fun expr out expanded => ?_, texts.neat noneEmpty⟩
    obtain ⟨noNul, tidy⟩ := texts.expandWith expanded
    exact ⟨tidy noneEmpty, noNul,
      (Expander.tidy_iff_intercalate_tokens noNul).mp (tidy noneEmpty)⟩
  · intro name empty isToken noQuote noConstant tidily
    have expanded := Expander.expandWith_of_empty empty isToken noQuote noConstant
    exact (tidily _ [44] expanded).1.head rfl

end Language

attribute [local instance] Constant.interpreter

/-- An equate of an equate, each with commas to spare, has a neat text, and so is what is expanded by
it. -/
theorem expansions_tidy_of_two :
    let emu := (new.load [⟨1, .directive (ascii ".equ") [ascii "A", ascii ",8,,eax,"]⟩,
      ⟨2, .directive (ascii ".equ") [ascii "B", ascii "A,,A"]⟩]).run.1
    Reachable emu ∧ emu.expander.table[ascii "B"]? = some (ascii "8,eax,8,eax") ∧
      (emu.expander.expand 44 (ascii ",,B,1,")).2 = .ok (ascii "8,eax,8,eax,1") ∧
      Tidy 44 (ascii "8,eax,8,eax,1") := by
  intro emu
  have read : Listing.parse (ascii ".equ A ,8,,eax,\n.equ B A,,A") =
      .ok [⟨1, .directive (ascii ".equ") [ascii "A", ascii ",8,,eax,"]⟩,
        ⟨2, .directive (ascii ".equ") [ascii "B", ascii "A,,A"]⟩] := by decide +kernel
  have reachable : Reachable emu := .run (.load .new read)
  have noneEmpty : NoneEmpty emu.expander.table := by
    have all : ∀ entry ∈ emu.expander.table.toList, entry.2 ≠ [] := by decide +kernel
    intro name empty
    exact all (name, []) (Std.ExtTreeMap.mem_toList_iff_getElem?_eq_some.mpr empty) rfl
  have expanded : (emu.expander.expand 44 (ascii ",,B,1,")).2 = .ok (ascii "8,eax,8,eax,1") := by
    decide +kernel
  obtain ⟨-, -, tidily, -⟩ := expansions_tidy reachable
  exact ⟨reachable, by decide +kernel, expanded, ((tidily noneEmpty).1 _ _ expanded).1⟩

/-- The line `.equ E ,` makes an equate that stands for nothing, and the line `.equ F E,1` one with a
comma in front. -/
theorem not_expandsTidily_of_nothing :
    let emu := (new.load [⟨1, .directive (ascii ".equ") [ascii "E", ascii ","]⟩,
      ⟨2, .directive (ascii ".equ") [ascii "F", ascii "E,1"]⟩]).run.1
    Reachable emu ∧ emu.expander.table[ascii "E"]? = some [] ∧
      emu.expander.table[ascii "F"]? = some (ascii ",1") ∧
      (emu.expander.expand 44 (ascii "E,1")).2 = .ok (ascii ",1") ∧
      tokens 44 (ascii ",1") = [ascii "1"] ∧ ¬ Tidy 44 (ascii ",1") ∧
      ¬ ExpandsTidily emu.expander := by
  intro emu
  have read : Listing.parse (ascii ".equ E ,\n.equ F E,1") =
      .ok [⟨1, .directive (ascii ".equ") [ascii "E", ascii ","]⟩,
        ⟨2, .directive (ascii ".equ") [ascii "F", ascii "E,1"]⟩] := by decide +kernel
  have expanded : (emu.expander.expand 44 (ascii "E,1")).2 = .ok (ascii ",1") := by decide +kernel
  have untidy : ¬ Tidy 44 (ascii ",1") := by decide
  exact ⟨.run (.load .new read), by decide +kernel, by decide +kernel, expanded, by decide, untidy,
    fun tidily => untidy (tidily _ _ expanded).1⟩

end Emulator

end Rpn
