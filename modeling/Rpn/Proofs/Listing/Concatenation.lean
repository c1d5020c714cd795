import Rpn.Proofs.Listing

/-!
# Listings joined by a newline

A listing behind another is read as if it stood alone; only its lines are counted on.

* `Listing.physicalLines_append_single` — what a newline at the end of a text adds to its lines;
* `Listing.parseLines_append_of_ok`, `Listing.parseLines_counted_on` and `Listing.parseLines_last` — how
  the lines in front, their number and the last of them show in what is read;
* `Listing.parse_append` — two listings with a newline between them are read one after the other.
-/

namespace Rpn

/-- A line that is counted from a place further on. -/
def Line.later (n : Nat) (line : Line) : Line :=
  { line with number := line.number + Int64.ofNat n }

/-- An error in a listing that is counted from a place further on. -/
def Error.later (n : Nat) : Error → Error
  | .inListing number text cause => .inListing (number + Int64.ofNat n) text cause
  | e => e

namespace Listing

variable {front rest : List Bytes} {count : Nat} {last : Bytes} {seen lines : List Line} {e : Error}

/-! ## A newline at the end -/

theorem length_lineStep {b : UInt8} (other : b ≠ 10) {physical : List Bytes} (some : physical ≠ []) :
    (lineStep b physical).length = physical.length := by
  obtain ⟨line, rest, rfl⟩ := List.exists_cons_of_ne_nil some
  rw [lineStep, if_neg other]
  rfl

/-- A text that is ended by a newline has as many lines as newlines. -/
theorem length_physicalLines_append_single (text : Bytes) :
    (physicalLines (text ++ [10])).length = text.count 10 + 1 := by
  induction text with
  | nil => rfl
  | cons b text ih =>
    have step : physicalLines (b :: text ++ [10]) = lineStep b (physicalLines (text ++ [10])) := rfl
    rw [step]
    by_cases newline : b = 10
    · subst newline
      rw [List.count_cons_self, ← ih]
      rfl
    · have some : physicalLines (text ++ [10]) ≠ [] := by
        rw [← List.length_pos_iff, ih]
        exact Nat.succ_pos _
      rw [length_lineStep newline some, ih, List.count_cons_of_ne newline]

/-- A newline at the end of a text ends its last line, or adds an empty one. -/
theorem physicalLines_append_single (text : Bytes) :
    physicalLines (text ++ [10]) = physicalLines text ∨
      physicalLines (text ++ [10]) = physicalLines text ++ [[]] := by
  induction text with
  | nil => exact Or.inr rfl
  | cons b text ih =>
    have step : physicalLines (b :: text ++ [10]) = lineStep b (physicalLines (text ++ [10])) := rfl
    have step' : physicalLines (b :: text) = lineStep b (physicalLines text) := rfl
    rw [step, step']
    rcases ih with same | more
    · exact Or.inl (congrArg (lineStep b) same)
    · rw [more]
      by_cases newline : b = 10
      · subst newline
        exact Or.inr rfl
      · cases physicalLines text with
        | nil =>
          left
          simp only [lineStep, if_neg newline, List.nil_append]
        | cons line rest =>
          right
          simp only [lineStep, if_neg newline, List.cons_append]

/-! ## One line more -/

/-- A line that is counted from a later place is read alike, and tells a later place. -/
theorem lineAfter_counted_on (n count : Nat) (last line : Bytes) :
    lineAfter (count + n) last line =
      match lineAfter count last line with
      | .error e => .error (e.later n)
      | .ok more => .ok (more.map (Line.later n)) := by
  have place : Int64.ofNat (count + n + 1) = Int64.ofNat (count + 1) + Int64.ofNat n := by
    rw [Nat.add_right_comm, Int64.ofNat_add]
  rw [lineAfter, lineAfter, place, Int64.ofNat_add]
  split
  · rfl
  · rcases statement (content line) with e | _ | s <;> rfl

/-- The line in front of a line shows only where that one is too long. -/
theorem lineAfter_last (count : Nat) (last last' line : Bytes) :
    lineAfter count last line = lineAfter count last' line ∨
      ∀ last, lineAfter count last line =
        .error (.inListing (Int64.ofNat count) last .lineTooLong) := by
  by_cases long : longestLine < line.length
  · exact Or.inr fun last => by rw [lineAfter, if_pos long]
  · exact Or.inl (by rw [lineAfter, lineAfter, if_neg long, if_neg long])

theorem exists_of_lineAfter_error {line : Bytes} (failed : lineAfter count last line = .error e) :
    ∃ place text cause, e = .inListing (Int64.ofNat place) text cause ∧
      count ≤ place ∧ place ≤ count + 1 := by
  rw [lineAfter] at failed
  split at failed
  · cases failed
    exact ⟨count, last, .lineTooLong, rfl, Nat.le_refl _, Nat.le_succ _⟩
  · split at failed <;> cases failed
    exact ⟨count + 1, _, _, rfl, Nat.le_succ _, Nat.le_refl _⟩

/-! ## Lines in front of others -/

theorem parseLines_append_of_error (failed : parseLines count last seen front = .error e)
    (rest : List Bytes) : parseLines count last seen (front ++ rest) = .error e := by
  induction front generalizing count last seen with
  | nil => cases failed
  | cons line front ih =>
    rw [parseLines_cons] at failed
    rw [List.cons_append, parseLines_cons]
    cases added : lineAfter count last line with
    | error e' =>
      rw [added] at failed
      exact failed
    | ok more =>
      rw [added] at failed
      exact ih failed

/-- Behind lines that are read, others are read as their number and the last of them tell. -/
theorem parseLines_append_of_ok (read : parseLines count last seen front = .ok lines)
    (rest : List Bytes) :
    ∃ last', parseLines count last seen (front ++ rest) =
      parseLines (count + front.length) last' lines.reverse rest := by
  induction front generalizing count last seen with
  | nil =>
    obtain rfl := Except.ok.inj read
    rw [List.reverse_reverse]
    exact ⟨last, rfl⟩
  | cons line front ih =>
    rw [parseLines_cons] at read
    rw [List.cons_append, parseLines_cons, List.length_cons, Nat.add_comm front.length,
      ← Nat.add_assoc]
    cases added : lineAfter count last line with
    | error e =>
      rw [added] at read
      cases read
    | ok more =>
      rw [added] at read
      exact ih read

/-- A newline at the end of a listing does not matter. -/
theorem parse_append_single (text : Bytes) : parse (text ++ [10]) = parse text := by
  rw [parse, parse]
  rcases physicalLines_append_single text with same | more
  · rw [same]
  · rw [more]
    cases read : parseLines 0 [] [] (physicalLines text) with
    | error e => exact parseLines_append_of_error read [[]]
    | ok lines =>
      obtain ⟨last, eq⟩ := parseLines_append_of_ok read [[]]
      have blank (count : Nat) : lineAfter count last [] = .ok [] := rfl
      rw [eq, parseLines_cons, blank]
      show Except.ok lines.reverse.reverse = Except.ok lines
      rw [List.reverse_reverse]

/-! ## Lines behind others -/

/-- Lines that are counted from a later place, behind others, are read alike, and tell later
places. -/
theorem parseLines_counted_on (n count : Nat) (last : Bytes) (before seen : List Line)
    (physical : List Bytes) :
    parseLines (count + n) last (seen.map (Line.later n) ++ before) physical =
      match parseLines count last seen physical with
      | .error e => .error (e.later n)
      | .ok lines => .ok (before.reverse ++ lines.map (Line.later n)) := by
  induction physical generalizing count last seen with
  | nil => simp only [parseLines, List.reverse_append, List.map_reverse]
  | cons line rest ih =>
    rw [parseLines_cons, parseLines_cons, lineAfter_counted_on]
    cases lineAfter count last line with
    | error e => rfl
    | ok more =>
      simp only
      rw [← ih, List.map_append, List.append_assoc, Nat.add_right_comm]

/-- The content of the last line in front of others shows only where the first of them is too
long. -/
theorem parseLines_last (count : Nat) (last last' : Bytes) (seen : List Line)
    (physical : List Bytes) :
    parseLines count last seen physical = parseLines count last' seen physical ∨
      ∀ last, parseLines count last seen physical =
        .error (.inListing (Int64.ofNat count) last .lineTooLong) := by
  cases physical with
  | nil => exact Or.inl rfl
  | cons line rest =>
    rcases lineAfter_last count last last' line with same | long
    · exact Or.inl (by rw [parseLines_cons, parseLines_cons, same])
    · exact Or.inr fun last => by rw [parseLines_cons, long last]

theorem exists_of_parseLines_error {physical : List Bytes}
    (failed : parseLines count last seen physical = .error e) :
    ∃ place text cause, e = .inListing (Int64.ofNat place) text cause ∧
      place ≤ count + physical.length := by
  induction physical generalizing count last seen with
  | nil => cases failed
  | cons line rest ih =>
    rw [parseLines_cons] at failed
    cases added : lineAfter count last line with
    | error e' =>
      rw [added] at failed
      cases failed
      obtain ⟨place, text, cause, rfl, -, bound⟩ := exists_of_lineAfter_error added
      refine ⟨place, text, cause, rfl, ?_⟩
      rw [List.length_cons]
      omega
    | ok more =>
      rw [added] at failed
      obtain ⟨place, text, cause, rfl, bound⟩ := ih failed
      refine ⟨place, text, cause, rfl, ?_⟩
      rw [List.length_cons]
      omega

/-! ## Listings -/

section Texts

variable {first second : Bytes} {later : List Line}

/-- The lines behind a newline are numbered on from the newlines in front of them. -/
theorem length_physicalLines_append (first second : Bytes) :
    (physicalLines (first ++ 10 :: second)).length =
      first.count 10 + 1 + (physicalLines second).length := by
  rw [physicalLines_append_newline, List.length_append, length_physicalLines_append_single]

theorem parse_append_of_error (failed : parse first = .error e) (second : Bytes) :
    parse (first ++ 10 :: second) = .error e := by
  rw [← parse_append_single, parse] at failed
  rw [parse, physicalLines_append_newline]
  exact parseLines_append_of_error failed _

/-- What stands behind a listing that is read is read behind its lines. -/
theorem parse_append_of_ok (read : parse first = .ok lines) (second : Bytes) :
    ∃ last, parse (first ++ 10 :: second) =
      match parseLines 0 last [] (physicalLines second) with
      | .error e => .error (e.later (first.count 10 + 1))
      | .ok later => .ok (lines ++ later.map (Line.later (first.count 10 + 1))) := by
  rw [← parse_append_single, parse] at read
  obtain ⟨last, eq⟩ := parseLines_append_of_ok read (physicalLines second)
  refine ⟨last, ?_⟩
  have counted := parseLines_counted_on (first.count 10 + 1) 0 last lines.reverse []
    (physicalLines second)
  rw [List.reverse_reverse] at counted
  rw [parse, physicalLines_append_newline, eq, length_physicalLines_append_single, ← counted]
  rfl

theorem parse_append_of_ok_ok (read : parse first = .ok lines) (read' : parse second = .ok later) :
    parse (first ++ 10 :: second) = .ok (lines ++ later.map (Line.later (first.count 10 + 1))) := by
  obtain ⟨last, eq⟩ := parse_append_of_ok read second
  rcases parseLines_last 0 [] last [] (physicalLines second) with same | long
  · rw [eq, ← same]
    simp only [show parseLines 0 [] [] (physicalLines second) = .ok later from read']
  · have failed := (long []).symm.trans read'
    cases failed

/-- The second of two listings fails behind the first as it does alone, only at a later place; and
where its first line is too long, the line in front of it is another. -/
theorem parse_append_of_ok_error (read : parse first = .ok lines)
    (failed : parse second = .error e) :
    ∃ number line line' cause, e = .inListing number line cause ∧
      parse (first ++ 10 :: second) =
        .error (.inListing (number + Int64.ofNat (first.count 10 + 1)) line' cause) ∧
      (cause ≠ .lineTooLong → line' = line) := by
  obtain ⟨last, eq⟩ := parse_append_of_ok read second
  rcases parseLines_last 0 [] last [] (physicalLines second) with same | long
  · obtain ⟨place, line, cause, rfl, -⟩ := exists_of_parseLines_error failed
    refine ⟨_, line, line, cause, rfl, ?_, fun _ => rfl⟩
    rw [eq, ← same]
    simp only [show parseLines 0 [] [] (physicalLines second) = _ from failed]
    rfl
  · obtain rfl := Except.error.inj (failed.symm.trans (long []))
    refine ⟨_, [], last, .lineTooLong, rfl, ?_, fun other => absurd rfl other⟩
    rw [eq, long last]
    rfl

/-- No number that is counted on wraps around, as long as the lines can be numbered. -/
theorem toInt_add_ofNat {place n : Nat} (few : place + n < 2 ^ 63) :
    (Int64.ofNat place + Int64.ofNat n).toInt = (Int64.ofNat place).toInt + n := by
  rw [← Int64.ofNat_add, Int64.toInt_ofNat_of_lt few, Int64.toInt_ofNat_of_lt (by omega)]
  exact Int.natCast_add place n

end Texts

/-- **Listings that are joined by a newline are read one after the other.**  If the first of two texts
is refused, so are both together, with the same error.  If both are read, the lines of both together
are those of the first, and then those of the second with their numbers counted on by the number of
lines in front.  If only the second is refused, so are both together, for the same cause and with its
number counted on; and the line that is told is the same, unless the cause is that the line behind it
is too long.  Numbers are words of 64 bits, and do not wrap around if there are fewer than `2 ^ 63`
lines. -/
theorem parse_append (first second : Bytes) :
    let n := first.count 10 + 1
    let whole := parse (first ++ 10 :: second)
    (∀ e, parse first = .error e →
      (∃ number line cause, e = .inListing number line cause) ∧ whole = .error e) ∧
    (∀ lines later, parse first = .ok lines → parse second = .ok later →
      whole = .ok (lines ++ later.map (Line.later n))) ∧
    (∀ lines e, parse first = .ok lines → parse second = .error e →
      ∃ number line line' cause, e = .inListing number line cause ∧
        whole = .error (.inListing (number + Int64.ofNat n) line' cause) ∧
        (cause ≠ .lineTooLong → line' = line)) ∧
    ((physicalLines (first ++ 10 :: second)).length < 2 ^ 63 →
      (∀ later, parse second = .ok later → ∀ line ∈ later,
        (line.later n).number.toInt = line.number.toInt + n) ∧
      ∀ number line cause, parse second = .error (.inListing number line cause) →
        (number + Int64.ofNat n).toInt = number.toInt + n) := by
  intro n whole
  refine ⟨?_, ?_, ?_, ?_⟩
  · intro e failed
    obtain ⟨place, line, cause, rfl, -⟩ := exists_of_parseLines_error failed
    exact ⟨⟨_, line, cause, rfl⟩, parse_append_of_error failed second⟩
  · intro lines later read read'
    exact parse_append_of_ok_ok read read'
  · intro lines e read failed
    exact parse_append_of_ok_error read failed
  · intro few
    rw [length_physicalLines_append] at few
    constructor
    · intro later read line mem
      rw [eq_filterMap_of_parse read] at mem
      obtain ⟨place, known, found⟩ := List.mem_filterMap.mp mem
      have bound := List.snd_lt_add_of_mem_zipIdx known
      rw [Line.later, number_of_lineAt? found]
      exact toInt_add_ofNat (by omega)
    · intro number line cause failed
      obtain ⟨place, _, _, same, bound⟩ := exists_of_parseLines_error failed
      cases same
      exact toInt_add_ofNat (by omega)

/-- A blank line ends the first text, so that the third line of the second is the sixth of both; where
the second text has another directive, both are refused for it. -/
theorem parse_append_of_macro :
    let first := ascii "1\n.set eax 2 ; a\r\n"
    let second := ascii "; b\n\neax,1,+"
    let wrong := ascii "2\n.macro X"
    parse (first ++ 10 :: second) =
      .ok [⟨1, .expression (ascii "1")⟩, ⟨2, .directive (ascii ".set") [ascii "eax", ascii "2"]⟩,
        ⟨6, .expression (ascii "eax,1,+")⟩] ∧
    parse (first ++ 10 :: wrong) = .error (.inListing 5 (ascii ".macro X") .directiveInvalid) ∧
    parse (wrong ++ 10 :: first) = .error (.inListing 2 (ascii ".macro X") .directiveInvalid) := by
  intro first second wrong
  have read : parse first = .ok [⟨1, .expression (ascii "1")⟩,
      ⟨2, .directive (ascii ".set") [ascii "eax", ascii "2"]⟩] := by decide
  have read' : parse second = .ok [⟨3, .expression (ascii "eax,1,+")⟩] := by decide
  have refused : parse wrong = .error (.inListing 2 (ascii ".macro X") .directiveInvalid) := by decide
  refine ⟨(parse_append first second).2.1 _ _ read read', ?_, ((parse_append wrong first).1 _ refused).2⟩
  obtain ⟨number, line, line', cause, same, both, told⟩ :=
    (parse_append first wrong).2.2.1 _ _ read refused
  cases same
  rw [both, told (by decide)]
  rfl

end Listing

end Rpn
