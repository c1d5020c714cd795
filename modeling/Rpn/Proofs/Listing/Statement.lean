import Mathlib.Data.List.TakeWhile
import Rpn.Listing
import Rpn.Proofs.Text.Fields

/-!
# Statements and the lines that ask for them

* `Statement.text` — the line that asks for a statement;
* `Statement.WellFormed` — the statements that a line can ask for;
* `Listing.statement_content_text` — a well-formed statement is read back from its line;
* `Listing.wellFormed_of_statement` — every statement that is read from a line is well formed, and
  its own line is no longer than the line it was read from.
-/

namespace Rpn

namespace Statement

/-- The line that asks for a statement. -/
def text : Statement → Bytes
  | .expression text => text
  | .directive name arguments => [32].intercalate (name :: arguments)

/-- The statements that a line can ask for. -/
inductive WellFormed : Statement → Prop
  | expression {text : Bytes} :
      text ≠ [] → 10 ∉ text → 59 ∉ text → text.head? ≠ some 46 → Text.Trimmed text →
      WellFormed (.expression text)
  | directive {name first second : Bytes} :
      name = ascii ".equ" ∨ name = ascii ".set" →
      first ≠ [] → Text.BlankFree first → 10 ∉ first → 59 ∉ first →
      second ≠ [] → Text.Trimmed second → 10 ∉ second → 59 ∉ second →
      WellFormed (.directive name [first, second])

instance decidableWellFormed : (s : Statement) → Decidable s.WellFormed
  | .expression text =>
    decidable_of_iff
      (text ≠ [] ∧ 10 ∉ text ∧ 59 ∉ text ∧ text.head? ≠ some 46 ∧ Text.Trimmed text)
      ⟨fun ⟨ne, noNewline, plain, noPoint, trimmed⟩ =>
          .expression ne noNewline plain noPoint trimmed,
        fun (.expression ne noNewline plain noPoint trimmed) =>
          ⟨ne, noNewline, plain, noPoint, trimmed⟩⟩
  | .directive name [first, second] =>
    decidable_of_iff
      ((name = ascii ".equ" ∨ name = ascii ".set") ∧
        (first ≠ [] ∧ Text.BlankFree first ∧ 10 ∉ first ∧ 59 ∉ first) ∧
        second ≠ [] ∧ Text.Trimmed second ∧ 10 ∉ second ∧ 59 ∉ second)
      ⟨fun ⟨known, ⟨ne, free, noNewline, plain⟩, ne', trimmed, noNewline', plain'⟩ =>
          .directive known ne free noNewline plain ne' trimmed noNewline' plain',
        fun (.directive known ne free noNewline plain ne' trimmed noNewline' plain') =>
          ⟨known, ⟨ne, free, noNewline, plain⟩, ne', trimmed, noNewline', plain'⟩⟩
  | .directive _ [] => isFalse nofun
  | .directive _ [_] => isFalse nofun
  | .directive _ (_ :: _ :: _ :: _) => isFalse nofun

theorem text_directive (name first second : Bytes) :
    (directive name [first, second]).text = name ++ 32 :: (first ++ 32 :: second) := by
  simp [text, List.intercalate_cons_cons]

end Statement

namespace Listing

/-! ## From a statement to its line and back -/

/-- What counts of a line that is trimmed and has no comment is the whole line. -/
theorem content_of_trimmed {text : Bytes} (trimmed : Text.Trimmed text) (plain : 59 ∉ text) :
    content text = text := by
  have noReturn : text.getLast? ≠ some 13 := by
    intro last
    have ends : [13] <:+ text := by
      obtain ⟨front, rfl⟩ := List.getLast?_eq_some_iff.mp last
      exact List.suffix_append _ _
    exact (Text.trimmed_iff.mp trimmed).2 [13] (by decide) ends
  have whole : (text.takeWhile fun b => b ≠ 59) = text := by
    rw [List.takeWhile_eq_self_iff]
    intro b mem
    exact decide_eq_true fun same => plain (same ▸ mem)
  rw [content, dropReturn, if_neg noReturn, whole, Text.trim_of_trimmed trimmed]

section Directive

variable {name first second : Bytes} (known : name = ascii ".equ" ∨ name = ascii ".set")

include known

theorem name_spec : ∃ rest, name = 46 :: rest ∧ Text.BlankFree name ∧ 10 ∉ name ∧ 59 ∉ name ∧
    directives.lookup name = some 2 := by
  rcases known with rfl | rfl
  · exact ⟨ascii "equ", by decide, by decide, by decide, by decide, by decide⟩
  · exact ⟨ascii "set", by decide, by decide, by decide, by decide, by decide⟩

variable (ne : first ≠ []) (free : Text.BlankFree first) (ne' : second ≠ [])
  (trimmed : Text.Trimmed second)

include ne free ne' trimmed

theorem cut_directive :
    Text.Cut (name ++ 32 :: (first ++ 32 :: second)) name [32] (first ++ 32 :: second) := by
  obtain ⟨rest, eq, freeName, -⟩ := name_spec known
  have nonempty : name ≠ [] := by
    rw [eq]
    exact List.cons_ne_nil 46 rest
  have behind := Text.cut_space ne free ne' trimmed
  exact Text.cut_space nonempty freeName (by simp) behind.trimmed_text

/-- The fields of a directive are its name and its arguments. -/
theorem fields_directive :
    Text.fields 2 (name ++ 32 :: (first ++ 32 :: second)) = [name, first, second] ∧
      ∃ rest, Text.fields 1 (name ++ 32 :: (first ++ 32 :: second)) = name :: rest := by
  have cut := cut_directive known ne free ne' trimmed
  have cut' := Text.cut_space ne free ne' trimmed
  have whole := Text.trim_of_trimmed cut.trimmed_text
  rw [Text.fields, Text.fields, whole, cut.fieldsFrom_eq, cut.fieldsFrom_eq, cut'.fieldsFrom_eq,
    Text.fieldsFrom_zero ne']
  exact ⟨rfl, _, rfl⟩

end Directive

/-- **A statement is read back from its line.** -/
theorem statement_content_text {s : Statement} (h : s.WellFormed) :
    statement (content s.text) = .ok (some s) := by
  cases h with
  | @expression text ne _ plain noPoint trimmed =>
    have kept : content (Statement.expression text).text = text := content_of_trimmed trimmed plain
    obtain ⟨b, rest, rfl⟩ := List.exists_cons_of_ne_nil ne
    have other : b ≠ 46 := fun same => noPoint (by rw [same]; rfl)
    rw [kept, statement, if_neg other]
  | @directive name first second known ne free _ plain ne' trimmed _ plain' =>
    obtain ⟨more, eq, -, -, plainName, count⟩ := name_spec known
    have kept : content (name ++ 32 :: (first ++ 32 :: second)) =
        name ++ 32 :: (first ++ 32 :: second) :=
      content_of_trimmed (cut_directive known ne free ne' trimmed).trimmed_text
        (by simp [plainName, plain, plain'])
    obtain ⟨fields, _, name_first⟩ := fields_directive known ne free ne' trimmed
    have read : directive (name ++ 32 :: (first ++ 32 :: second)) =
        .ok (.directive name [first, second]) := by
      rw [directive, name_first]
      simp only [count, fields]
      rfl
    rw [Statement.text_directive, kept]
    subst eq
    rw [List.cons_append, statement, if_pos rfl, ← List.cons_append, read]
    rfl

theorem not_mem_text {s : Statement} (h : s.WellFormed) : 10 ∉ s.text := by
  cases h with
  | expression _ noNewline _ _ _ => exact noNewline
  | directive known _ _ noNewline _ _ _ noNewline' _ =>
    obtain ⟨_, -, -, noNewline'', -, -⟩ := name_spec known
    rw [Statement.text_directive]
    simp [noNewline, noNewline', noNewline'']

/-! ## From a line to its statement -/

/-- What counts of a line is a trimmed part of it without a comment. -/
theorem content_spec (line : Bytes) :
    content line <:+: line ∧ Text.Trimmed (content line) ∧ 59 ∉ content line := by
  have returned : dropReturn line <+: line := by
    unfold dropReturn
    split
    · exact List.dropLast_prefix line
    · exact List.prefix_refl line
  have shown := List.takeWhile_prefix (l := dropReturn line) fun b => decide (b ≠ 59)
  refine ⟨?_, Text.trimmed_trim _, ?_⟩
  · exact (Text.trim_infix _).trans (shown.trans returned).isInfix
  · intro mem
    have before := List.mem_takeWhile_imp ((Text.trim_infix _).subset mem)
    exact of_decide_eq_true before rfl

theorem known_of_lookup {name : Bytes} {count : Nat} (h : directives.lookup name = some count) :
    (name = ascii ".equ" ∨ name = ascii ".set") ∧ count = 2 := by
  simp only [directives, List.lookup_cons, List.lookup_nil] at h
  split at h
  · next same => exact ⟨Or.inl (eq_of_beq same), (Option.some.inj h).symm⟩
  · split at h
    · next same => exact ⟨Or.inr (eq_of_beq same), (Option.some.inj h).symm⟩
    · cases h

/-- A directive that is read has two arguments: a word, and what is left of the line. -/
theorem exists_of_directive {text : Bytes} {s : Statement} (trimmed : Text.Trimmed text)
    (ne : text ≠ []) (read : directive text = .ok s) :
    ∃ name first second, s = .directive name [first, second] ∧
      (name = ascii ".equ" ∨ name = ascii ".set") ∧
      first ≠ [] ∧ Text.BlankFree first ∧ first <:+: text ∧
      second ≠ [] ∧ Text.Trimmed second ∧ second <:+ text ∧
      (name ++ 32 :: (first ++ 32 :: second)).length ≤ text.length := by
  have fields : ∀ n, Text.fields n text = Text.fieldsFrom n text := by
    intro n
    rw [Text.fields, Text.trim_of_trimmed trimmed]
  obtain ⟨name, gap, rest, cut⟩ := Text.exists_cut ne trimmed
  -- the name does not depend on how many fields are asked for
  simp only [directive, fields, cut.fieldsFrom_eq 0] at read
  cases found : directives.lookup name with
  | none =>
    rw [found] at read
    cases read
  | some count =>
    obtain ⟨known, rfl⟩ := known_of_lookup found
    simp only [found, cut.fieldsFrom_eq 1, List.drop_one, List.tail_cons] at read
    have some_rest : rest ≠ [] := by
      intro empty
      rw [empty] at read
      cases read
    obtain ⟨first, gap', second, cut'⟩ := Text.exists_cut some_rest cut.trimmed
    have some_second : second ≠ [] := by
      intro empty
      rw [cut'.fieldsFrom_eq, empty] at read
      cases read
    rw [cut'.fieldsFrom_eq, Text.fieldsFrom_zero some_second] at read
    cases read
    have ends : rest <:+ text := ⟨name ++ gap, by rw [cut.split, List.append_assoc]⟩
    have ends' : second <:+ rest := ⟨first ++ gap', by rw [cut'.split, List.append_assoc]⟩
    have begins' : first <+: rest := ⟨gap' ++ second, cut'.split.symm⟩
    refine ⟨name, first, second, rfl, known, cut'.nonempty, cut'.free,
      begins'.isInfix.trans ends.isInfix, some_second, cut'.trimmed, ends'.trans ends, ?_⟩
    have before := List.length_pos_iff.mpr (mt cut.gap_iff.mp some_rest)
    have after := List.length_pos_iff.mpr (mt cut'.gap_iff.mp some_second)
    rw [cut.split, cut'.split]
    simp only [List.length_append, List.length_cons]
    omega

/-- **Every statement that is read is well formed**, and its line is no longer than the line that it
is read from. -/
theorem wellFormed_of_statement {line : Bytes} {s : Statement} (noNewline : 10 ∉ line)
    (read : statement (content line) = .ok (some s)) :
    s.WellFormed ∧ s.text.length ≤ line.length := by
  obtain ⟨inside, trimmed, plain⟩ := content_spec line
  have noNewline' : 10 ∉ content line := fun mem => noNewline (inside.subset mem)
  have short := inside.length_le
  generalize content line = text at *
  cases text with
  | nil => cases read
  | cons b rest =>
    rw [statement] at read
    split at read
    · cases found : directive (b :: rest) with
      | error e =>
        rw [found] at read
        cases read
      | ok s' =>
        rw [found] at read
        cases read
        obtain ⟨name, first, second, rfl, known, ne, free, part, ne', trimmed', part', length⟩ :=
          exists_of_directive trimmed (List.cons_ne_nil b rest) found
        refine ⟨.directive known ne free ?_ ?_ ne' trimmed' ?_ ?_, ?_⟩
        · exact fun mem => noNewline' (part.subset mem)
        · exact fun mem => plain (part.subset mem)
        · exact fun mem => noNewline' (part'.subset mem)
        · exact fun mem => plain (part'.subset mem)
        · rw [Statement.text_directive]
          exact length.trans short
    · next other =>
      cases read
      have noPoint : (b :: rest).head? ≠ some 46 := fun same => other (Option.some.inj same)
      exact ⟨.expression (List.cons_ne_nil b rest) noNewline' plain noPoint trimmed, short⟩

end Listing

end Rpn
