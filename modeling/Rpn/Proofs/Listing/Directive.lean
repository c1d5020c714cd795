import Rpn.Proofs.Listing.Statement

/-!
# The fields of a directive

* `Listing.directive_eq_ok_iff` — a directive is read by two divisions of its line into fields: the
  first finds the name, and the second, into as many fields as the directive asks for, finds the name
  again and then the arguments;
* `Listing.fields_divided` — dividing a line into fields comes to an end, loses nothing but white
  space, and finds the same words however many are asked for.
-/

namespace Rpn.Listing

variable {line name : Bytes} {arguments : List Bytes}

/-- The first field does not depend on how many fields are asked for. -/
theorem head?_fields {count : Nat} (some : 1 ≤ count) (line : Bytes) :
    (Text.fields count line).head? = (Text.fields 1 line).head? := by
  have same := congrArg List.head? (Text.take_fieldsFrom some (Text.trim line))
  rwa [List.head?_take, List.head?_take, if_neg Nat.one_ne_zero, if_neg Nat.one_ne_zero] at same

/-- A directive that is read has the name that both divisions of its line begin with. -/
theorem directive_eq_ok_iff :
    directive line = .ok (.directive name arguments) ↔
      ∃ count rest, Text.fields 1 line = name :: rest ∧ directives.lookup name = some count ∧
        Text.fields count line = name :: arguments ∧ arguments.length = count := by
  constructor
  · intro read
    rw [directive] at read
    split at read
    · cases read
    · next found rest first =>
      split at read
      · cases read
      · next count known =>
        dsimp only at read
        split at read
        · next length =>
          cases read
          have some : 1 ≤ count := by
            rw [(known_of_lookup known).2]
            decide
          have same := head?_fields some line
          rw [first, List.head?_cons] at same
          obtain ⟨arguments, again⟩ := List.head?_eq_some_iff.mp same
          rw [again, List.drop_one, List.tail_cons] at length ⊢
          exact ⟨count, rest, first, known, again, length⟩
        · cases read
  · intro found
    obtain ⟨count, rest, first, known, again, length⟩ := found
    rw [directive, first]
    simp only [known, again, List.drop_one, List.tail_cons, if_pos length]

/-- **Dividing a line into fields comes to an end and loses nothing.**  The passes that cut off a word
each are no more than are asked for, and no more than the trimmed line has bytes; what they end with are
the fields.  Trimming takes off white space at the ends of the line, and the fields are exactly the words
that the trimmed line is divided into: at most `n` without white space, and then the rest, with white
space between neighbours.  Asking for more of them leaves the first `n` alone, so that the name which is
looked up is the name which the arguments are read behind. -/
theorem fields_divided {m n : Nat} (le : n ≤ m) (line : Bytes) :
    (∃ passes last, Text.Division.Passes n ⟨[], Text.trim line⟩ passes last ∧ passes ≤ n ∧
      passes ≤ (Text.trim line).length ∧ Text.fields n line = last.fields) ∧
    (∃ front back, line = front ++ (Text.trim line ++ back) ∧ Text.AllBlank front ∧
      Text.AllBlank back) ∧
    (∀ words, Text.Divided n (Text.trim line) words ↔ words = Text.fields n line) ∧
    (Text.fields m line).take n = (Text.fields n line).take n ∧
    ∀ name arguments, directive line = .ok (.directive name arguments) ↔
      ∃ count rest, Text.fields 1 line = name :: rest ∧ directives.lookup name = some count ∧
        Text.fields count line = name :: arguments ∧ arguments.length = count := by
  have trimmed := Text.trimmed_trim line
  refine ⟨?_, Text.exists_trim line, ?_, Text.take_fieldsFrom le _, fun _ _ => directive_eq_ok_iff⟩
  · obtain ⟨passes, last, ran, few, short, eq⟩ := Text.Division.exists_passes trimmed [] n
    rw [List.length_nil, Nat.zero_add] at ran
    exact ⟨passes, last, ran, few, short, eq⟩
  · intro words
    rw [Text.divided_iff]
    exact and_iff_right trimmed

/-- A line that has white space of three bytes behind its name and ends with the first two bytes of such:
the one divides its fields, and the others belong to the last of them. -/
theorem fields_divided_of_wide_space :
    let line := ascii " .equ" ++ [0xE2, 0x80, 0x83] ++ ascii "A\t 1 + " ++ [0xE2, 0x80] ++ ascii " "
    let value := ascii "1 + " ++ [0xE2, 0x80]
    1 ≤ 2 ∧
      (∀ words, Text.Divided 1 (Text.trim line) words ↔
        words = [ascii ".equ", ascii "A\t " ++ value]) ∧
      (Text.fields 2 line).take 1 = [ascii ".equ"] ∧
      directive line = .ok (.directive (ascii ".equ") [ascii "A", value]) := by
  intro line value
  have le : 1 ≤ 2 := by decide
  obtain ⟨-, -, divided, same, read⟩ := fields_divided le line
  have first : Text.fields 1 line = [ascii ".equ", ascii "A\t " ++ value] := by decide
  have both : Text.fields 2 line = [ascii ".equ", ascii "A", value] := by decide
  rw [first] at divided same
  exact ⟨le, divided, same, (read _ _).mpr ⟨2, _, first, by decide, both, rfl⟩⟩

end Rpn.Listing
