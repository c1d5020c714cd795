import Rpn.Proofs.Listing
import Rpn.Proofs.Listing.Statement

/-!
# Listings written out and read back

* `Listing.WellFormed` — the listings that a text can hold;
* `Listing.render` — the text of a listing, every line at the place that its number tells;
* `Listing.parse_render` — a well-formed listing is read back from its text;
* `Listing.round_trip` — and every listing that is read is well formed, so that nothing of it is
  lost when it is written out again.
-/

namespace Rpn.Listing

/-- The listings that a text can hold. -/
structure WellFormed (lines : List Line) : Prop where
  positive : ∀ line ∈ lines, 1 ≤ line.number
  increasing : lines.Pairwise fun line later => line.number < later.number
  statements : ∀ line ∈ lines, line.statement.WellFormed

instance (lines : List Line) : Decidable (WellFormed lines) :=
  decidable_of_iff ((∀ line ∈ lines, 1 ≤ line.number) ∧
      (lines.Pairwise fun line later => line.number < later.number) ∧
      ∀ line ∈ lines, line.statement.WellFormed)
    ⟨fun ⟨positive, increasing, statements⟩ => ⟨positive, increasing, statements⟩,
      fun h => ⟨h.positive, h.increasing, h.statements⟩⟩

/-- The physical lines of a listing from the one numbered `next` on: those that the listing does not
number are empty. -/
def layout (next : Nat) : List Line → List Bytes
  | [] => []
  | line :: rest =>
    List.replicate (line.number.toNatClampNeg - next) [] ++
      line.statement.text :: layout (line.number.toNatClampNeg + 1) rest

/-- The text of a listing, every physical line ended by a newline. -/
def render (lines : List Line) : Bytes :=
  (layout 1 lines).flatMap (· ++ [10])

/-! ## Physical lines -/

theorem physicalLines_line {line : Bytes} (h : 10 ∉ line) (rest : Bytes) :
    physicalLines (line ++ 10 :: rest) = line :: physicalLines rest := by
  induction line with
  | nil => rfl
  | cons b line ih =>
    rw [List.mem_cons, not_or] at h
    have later := ih h.2
    simp only [physicalLines, List.cons_append, List.foldr_cons] at later ⊢
    rw [later, lineStep, if_neg (Ne.symm h.1)]

/-- Lines that are ended by newlines are found again. -/
theorem physicalLines_flatMap {physical : List Bytes} (h : ∀ line ∈ physical, 10 ∉ line) :
    physicalLines (physical.flatMap (· ++ [10])) = physical := by
  induction physical with
  | nil => rfl
  | cons line rest ih =>
    rw [List.forall_mem_cons] at h
    have split : (line :: rest).flatMap (· ++ [10]) = line ++ 10 :: rest.flatMap (· ++ [10]) := by
      simp
    rw [split, physicalLines_line h.1, ih h.2]

theorem not_mem_of_mem_physicalLines {text line : Bytes} (mem : line ∈ physicalLines text) :
    10 ∉ line := by
  induction text generalizing line with
  | nil => cases mem
  | cons b text ih =>
    have step : physicalLines (b :: text) = lineStep b (physicalLines text) := rfl
    rw [step] at mem
    unfold lineStep at mem
    split at mem
    · rcases List.mem_cons.mp mem with rfl | mem
      · exact List.not_mem_nil
      · exact ih mem
    · next other =>
      split at mem
      · rw [List.mem_singleton] at mem
        simp [mem, Ne.symm other]
      · next first rest eq =>
        rcases List.mem_cons.mp mem with rfl | mem
        · have inner := ih (eq ▸ List.mem_cons_self)
          simp [Ne.symm other, inner]
        · exact ih (eq ▸ List.mem_cons_of_mem _ mem)

theorem not_mem_of_mem_layout {lines : List Line} (h : ∀ line ∈ lines, line.statement.WellFormed)
    (next : Nat) : ∀ physical ∈ layout next lines, 10 ∉ physical := by
  induction lines generalizing next with
  | nil => simp [layout]
  | cons line rest ih =>
    rw [List.forall_mem_cons] at h
    intro physical mem
    rw [layout, List.mem_append, List.mem_cons] at mem
    rcases mem with blank | rfl | mem
    · rw [List.eq_of_mem_replicate blank]
      exact List.not_mem_nil
    · exact not_mem_text h.1
    · exact ih h.2 _ physical mem

/-! ## From a listing to its text and back -/

/-- Empty lines are counted, and otherwise change nothing. -/
theorem parseLines_replicate (n count : Nat) (last : Bytes) (seen : List Line) (rest : List Bytes) :
    ∃ last', parseLines count last seen (List.replicate n [] ++ rest) =
      parseLines (count + n) last' seen rest := by
  induction n generalizing count last with
  | zero => exact ⟨last, rfl⟩
  | succ n ih =>
    obtain ⟨last', eq⟩ := ih (count + 1) (content [])
    refine ⟨last', ?_⟩
    have short : ¬ longestLine < ([] : Bytes).length := by simp
    have empty : statement (content []) = .ok none := by decide
    rw [List.replicate_succ, List.cons_append, parseLines, if_neg short, empty]
    simp only [eq]
    rw [Nat.add_right_comm, Nat.add_assoc]

/-- A line is read back where the lines before it are those before its number. -/
theorem parseLines_text {s : Statement} (h : s.WellFormed) (short : s.text.length ≤ longestLine)
    (count : Nat) (last : Bytes) (seen : List Line) (rest : List Bytes) :
    parseLines count last seen (s.text :: rest) =
      parseLines (count + 1) (content s.text) (⟨Int64.ofNat (count + 1), s⟩ :: seen) rest := by
  rw [parseLines, if_neg (Nat.not_lt.mpr short), statement_content_text h]

theorem parseLines_layout {lines : List Line} {count : Nat} (h : WellFormed lines)
    (after : ∀ line ∈ lines, count < line.number.toNatClampNeg)
    (short : ∀ line ∈ lines, line.statement.text.length ≤ longestLine)
    (last : Bytes) (seen : List Line) :
    parseLines count last seen (layout (count + 1) lines) = .ok (seen.reverse ++ lines) := by
  induction lines generalizing count last seen with
  | nil => simp [layout, parseLines]
  | cons line rest ih =>
    obtain ⟨positive, increasing, statements⟩ := h
    rw [List.forall_mem_cons] at positive after short statements
    rw [List.pairwise_cons] at increasing
    have place : Int64.ofNat line.number.toNatClampNeg = line.number := by
      apply Int64.ofNat_toNatClampNeg
      have zero : (0 : Int64) ≤ 1 := by decide
      exact Int64.le_trans zero positive.1
    have later : ∀ line' ∈ rest, line.number.toNatClampNeg < line'.number.toNatClampNeg := by
      intro line' mem
      have lt := Int64.lt_iff_toInt_lt.mp (increasing.1 line' mem)
      have pos := Int64.le_iff_toInt_le.mp positive.1
      have one : (1 : Int64).toInt = 1 := by decide
      simp only [Int64.toNatClampNeg]
      omega
    obtain ⟨last', blank⟩ := parseLines_replicate (line.number.toNatClampNeg - (count + 1)) count
      last seen (line.statement.text :: layout (line.number.toNatClampNeg + 1) rest)
    have reached : count + (line.number.toNatClampNeg - (count + 1)) + 1 =
        line.number.toNatClampNeg := by omega
    rw [layout, blank, parseLines_text statements.1 short.1, reached, place,
      ih ⟨positive.2, increasing.2, statements.2⟩ later short.2]
    simp

/-- A well-formed listing is read back from its text. -/
theorem parse_render {lines : List Line} (h : WellFormed lines)
    (short : ∀ line ∈ lines, line.statement.text.length ≤ longestLine) :
    parse (render lines) = .ok lines := by
  have after : ∀ line ∈ lines, 0 < line.number.toNatClampNeg := by
    intro line mem
    have pos := Int64.le_iff_toInt_le.mp (h.positive line mem)
    have one : (1 : Int64).toInt = 1 := by decide
    simp only [Int64.toNatClampNeg]
    omega
  rw [parse, render, physicalLines_flatMap (not_mem_of_mem_layout h.statements 1)]
  exact parseLines_layout h after short [] []

/-! ## From a text to its listing and back -/

/-- Where lines are read, none is too long. -/
theorem length_le_of_parseLines {physical : List Bytes} {count : Nat} {last : Bytes}
    {seen lines : List Line} (read : parseLines count last seen physical = .ok lines) :
    ∀ line ∈ physical, line.length ≤ longestLine := by
  induction physical generalizing count last seen with
  | nil => simp
  | cons line rest ih =>
    rw [parseLines_cons] at read
    cases added : lineAfter count last line with
    | error e =>
      rw [added] at read
      cases read
    | ok more =>
      rw [added] at read
      rw [List.forall_mem_cons]
      exact ⟨(eq_of_lineAfter added).1, ih read⟩

/-- What stands at a place of a text is well formed, and not too long. -/
theorem wellFormed_of_lineAt? {text : Bytes} {lines : List Line} (read : parse text = .ok lines)
    {place : Bytes × Nat} (mem : place ∈ (physicalLines text).zipIdx 1) {line : Line}
    (h : lineAt? place = some line) :
    line.statement.WellFormed ∧ line.statement.text.length ≤ longestLine := by
  obtain ⟨s, found, rfl⟩ := Option.map_eq_some_iff.mp h
  have known : place.1 ∈ physicalLines text := List.fst_mem_of_mem_zipIdx mem
  have asked : statement (content place.1) = .ok (some s) := by
    cases answer : statement (content place.1) with
    | error e => simp [answer, Except.toOption] at found
    | ok s' => simpa [answer, Except.toOption] using found
  obtain ⟨wellFormed, short⟩ := wellFormed_of_statement (not_mem_of_mem_physicalLines known) asked
  exact ⟨wellFormed, short.trans (length_le_of_parseLines read _ known)⟩

/-- A listing that is read is well formed, and none of its lines is too long to be written. -/
theorem wellFormed_of_parse {text : Bytes} {lines : List Line} (read : parse text = .ok lines)
    (few : (physicalLines text).length < 2 ^ 63) :
    WellFormed lines ∧ ∀ line ∈ lines, line.statement.text.length ≤ longestLine := by
  have number : ∀ place ∈ (physicalLines text).zipIdx 1, ∀ line, lineAt? place = some line →
      line.number.toInt = place.2 ∧ 1 ≤ place.2 := by
    intro place mem line h
    have bound := List.snd_lt_add_of_mem_zipIdx mem
    rw [number_of_lineAt? h, Int64.toInt_ofNat_of_lt (by omega)]
    exact ⟨rfl, List.le_snd_of_mem_zipIdx mem⟩
  have places : ((physicalLines text).zipIdx 1).Pairwise fun place later => place.2 < later.2 := by
    rw [← List.pairwise_map, List.zipIdx_map_snd]
    exact List.pairwise_lt_range' 1
  have found : ∀ line ∈ lines,
      ∃ place ∈ (physicalLines text).zipIdx 1, lineAt? place = some line := by
    intro line mem
    rw [eq_filterMap_of_parse read] at mem
    exact List.mem_filterMap.mp mem
  refine ⟨⟨?_, ?_, ?_⟩, ?_⟩
  · intro line mem
    obtain ⟨place, known, h⟩ := found line mem
    obtain ⟨eq, pos⟩ := number place known line h
    have one : (1 : Int64).toInt = 1 := by decide
    rw [Int64.le_iff_toInt_le, eq, one]
    omega
  · rw [eq_filterMap_of_parse read]
    refine List.pairwise_filterMap.mpr ((List.Pairwise.and_mem.mp places).imp ?_)
    rintro place later ⟨known, known', lt⟩ line h line' h'
    rw [Int64.lt_iff_toInt_lt, (number place known line h).1, (number later known' line' h').1]
    omega
  · intro line mem
    obtain ⟨place, known, h⟩ := found line mem
    exact (wellFormed_of_lineAt? read known h).1
  · intro line mem
    obtain ⟨place, known, h⟩ := found line mem
    exact (wellFormed_of_lineAt? read known h).2

/-- **Listings survive being written and read.**  A well-formed listing whose lines are not too long
is read back from its text; and every listing that is read is well formed, and is read again from
its own text.  Numbers are words of 64 bits, so that a text needs fewer than `2 ^ 63` lines for all
of them to be numbered from 1 on. -/
theorem round_trip :
    (∀ lines : List Line, WellFormed lines →
      (∀ line ∈ lines, line.statement.text.length ≤ longestLine) →
      parse (render lines) = .ok lines) ∧
    ∀ (text : Bytes) (lines : List Line), (physicalLines text).length < 2 ^ 63 →
      parse text = .ok lines → WellFormed lines ∧ parse (render lines) = .ok lines := by
  constructor
  · intro lines wellFormed short
    exact parse_render wellFormed short
  · intro text lines few read
    obtain ⟨wellFormed, short⟩ := wellFormed_of_parse read few
    exact ⟨wellFormed, parse_render wellFormed short⟩

/-- A comment, a blank line, a directive and an expression, with white space of several kinds. -/
theorem round_trip_of_five :
    parse (render [⟨3, .directive (ascii ".equ") [ascii "N", ascii "4 ,5"]⟩,
        ⟨5, .expression (ascii "N, 1,+")⟩]) =
      .ok [⟨3, .directive (ascii ".equ") [ascii "N", ascii "4 ,5"]⟩,
        ⟨5, .expression (ascii "N, 1,+")⟩] ∧
    parse (ascii "; a\r\n\n .equ  N\t4 ,5 ;b\n\x0b\nN, 1,+\r") =
      .ok [⟨3, .directive (ascii ".equ") [ascii "N", ascii "4 ,5"]⟩,
        ⟨5, .expression (ascii "N, 1,+")⟩] ∧
    WellFormed [⟨3, .directive (ascii ".equ") [ascii "N", ascii "4 ,5"]⟩,
        ⟨5, .expression (ascii "N, 1,+")⟩] := by
  refine ⟨?_, by decide, ?_⟩
  · exact round_trip.1 _ (by decide) (by decide)
  · exact (round_trip.2 (ascii "; a\r\n\n .equ  N\t4 ,5 ;b\n\x0b\nN, 1,+\r") _ (by decide)
      (by decide)).1

end Rpn.Listing
