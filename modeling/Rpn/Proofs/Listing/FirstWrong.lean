import Rpn.Proofs.Listing
import Rpn.Proofs.Listing.RoundTrip

/-!
# The first wrong line of a listing

A listing is refused for its first physical line that is wrong.  The error tells that line, unless the
line is too long: then it tells the line in front.

* `Listing.shown` — what is shown of a line: its text in front of the comment, trimmed;
* `Listing.Misdirected` and `Listing.Wrong` — what is wrong with a directive and with a line, said
  without reading it;
* `Listing.fault?_eq_some_iff` — reading a line finds what is wrong with it;
* `Listing.FirstWrong` — the first wrong line of a text, with the lines in front of it;
* `Listing.parse_of_directive` and `Listing.parse_of_tooLong` — the error that is told for it;
* `Listing.pointsAtFirstWrong_iff` — the texts whose error points at their first wrong line.
-/

namespace Rpn.Listing

/-! ## What is wrong with a line -/

/-- What is shown of a line: its text in front of the first `;`, trimmed. -/
def shown (line : Bytes) : Bytes :=
  Text.trim (line.takeWhile fun b => b ≠ 59)

/-- What is wrong with the text of a directive: its first word is not known, or no more than one word
follows. -/
inductive Misdirected (text : Bytes) : Error → Prop
  | unknown {name rest : Bytes} :
      Text.FirstWord text name rest → ¬ (name = ascii ".equ" ∨ name = ascii ".set") →
      Misdirected text .directiveInvalid
  | arguments {name rest : Bytes} :
      Text.FirstWord text name rest → (name = ascii ".equ" ∨ name = ascii ".set") →
      Text.BlankFree (Text.trim rest) → Misdirected text .directiveForm

/-- What is wrong with a physical line: it is too long, or a directive that is none. -/
inductive Wrong (line : Bytes) : Error → Prop
  | tooLong : longestLine < line.length → Wrong line .lineTooLong
  | directive {cause : Error} :
      line.length ≤ longestLine → (shown line).head? = some 46 → Misdirected (shown line) cause →
      Wrong line cause

/-- What reading a line finds wrong with it. -/
def fault? (line : Bytes) : Option Error :=
  if longestLine < line.length then some .lineTooLong
  else
    match statement (content line) with
    | .error e => some e
    | .ok _ => none

variable {text line : Bytes} {cause : Error}

/-- The carriage return at the end of a line is trimmed anyway. -/
theorem content_eq_shown (line : Bytes) : content line = shown line := by
  rw [content, shown, dropReturn]
  split
  · next last =>
    obtain ⟨front, rfl⟩ := List.getLast?_eq_some_iff.mp last
    rw [List.dropLast_concat, List.takeWhile_append]
    split
    · next whole =>
      have all : front.takeWhile (fun b => decide (b ≠ 59)) = front :=
        (List.takeWhile_prefix _).eq_of_length whole
      have returned : [(13 : UInt8)].takeWhile (fun b => decide (b ≠ 59)) = [13] := by decide
      rw [all, returned, Text.trim_append_return]
    · rfl
  · rfl

theorem lookup_directives_eq_none_iff {name : Bytes} :
    directives.lookup name = none ↔ ¬ (name = ascii ".equ" ∨ name = ascii ".set") := by
  constructor
  · intro unknown known
    obtain ⟨_, -, -, -, -, found⟩ := name_spec known
    rw [unknown] at found
    cases found
  · intro unknown
    cases found : directives.lookup name with
    | none => rfl
    | some count => exact absurd (known_of_lookup found).1 unknown

/-- A directive is refused for what is wrong with it. -/
theorem directive_eq_error_iff (trimmed : Text.Trimmed text) (ne : text ≠ []) :
    directive text = .error cause ↔ Misdirected text cause := by
  obtain ⟨name, rest, first⟩ : ∃ name rest, Text.FirstWord text name rest :=
    ⟨_, _, Text.firstWord_eq_iff.mp rfl⟩
  have fields : ∀ n, Text.fields (n + 1) text = name :: Text.fieldsFrom n (Text.trimLeft rest) := by
    intro n
    rw [Text.fields, Text.trim_of_trimmed trimmed, Text.fieldsFrom_succ ne,
      Text.firstWord_eq_iff.mpr first]
  -- nothing behind the name ends with white space, so trimming it is trimming its front
  have back : ∀ pattern ∈ Text.blanks, ¬ pattern <:+ Text.trimLeft rest := by
    intro pattern mem ends
    have inside : Text.trimLeft rest <:+ text :=
      (Text.trimLeft_spec rest).1.trans ⟨name, first.split.symm⟩
    exact (Text.trimmed_iff.mp trimmed).2 pattern mem (ends.trans inside)
  have whole : Text.trim rest = Text.trimLeft rest := Text.trimRight_eq_self back
  rw [directive, fields 0]
  cases found : directives.lookup name with
  | none =>
    have unknown := lookup_directives_eq_none_iff.mp found
    simp only [found]
    constructor
    · rintro ⟨⟩
      exact .unknown first unknown
    · rintro (⟨first', _⟩ | ⟨first', known, _⟩)
      · rfl
      · rw [(first.unique first').1] at unknown
        exact absurd known unknown
  | some count =>
    obtain ⟨known, rfl⟩ := known_of_lookup found
    have behind := Text.trimmed_trim rest
    rw [whole] at behind
    simp only [found, fields 1, List.drop_one, List.tail_cons, Text.length_fieldsFrom_one behind]
    rw [← whole]
    constructor
    · intro refused
      split at refused
      · cases refused
      · next few =>
        cases refused
        exact .arguments first known (Classical.not_not.mp few)
    · rintro (⟨first', unknown⟩ | ⟨first', _, few⟩)
      · rw [(first.unique first').1] at known
        exact absurd known unknown
      · rw [(first.unique first').2, if_neg (not_not_intro few)]

theorem statement_eq_error_iff :
    statement text = .error cause ↔ text.head? = some 46 ∧ directive text = .error cause := by
  cases text with
  | nil =>
    constructor
    · intro refused
      cases refused
    · rintro ⟨point, -⟩
      cases point
  | cons b rest =>
    rw [statement, List.head?_cons, Option.some.injEq]
    by_cases point : b = 46
    · rw [if_pos point, and_iff_right point]
      cases directive (b :: rest) <;> simp [Except.map]
    · rw [if_neg point]
      constructor
      · intro refused
        cases refused
      · rintro ⟨point', -⟩
        exact absurd point' point

/-- Reading a line finds what is wrong with it. -/
theorem fault?_eq_some_iff : fault? line = some cause ↔ Wrong line cause := by
  have trimmed : Text.Trimmed (shown line) := Text.trimmed_trim _
  have read : statement (content line) = .error cause ↔
      (shown line).head? = some 46 ∧ Misdirected (shown line) cause := by
    rw [content_eq_shown, statement_eq_error_iff]
    refine and_congr_right fun point => directive_eq_error_iff trimmed ?_
    intro empty
    rw [empty] at point
    cases point
  rw [fault?]
  split
  · next long =>
    constructor
    · rintro ⟨⟩
      exact .tooLong long
    · rintro (_ | ⟨short, _, _⟩)
      · rfl
      · omega
  · next short =>
    have refused : (match statement (content line) with
        | .error e => some e
        | .ok _ => none) = some cause ↔ statement (content line) = .error cause := by
      cases statement (content line) <;> simp
    rw [refused, read]
    constructor
    · rintro ⟨point, misdirected⟩
      exact .directive (Nat.not_lt.mp short) point misdirected
    · rintro (long | ⟨_, point, misdirected⟩)
      · exact absurd long short
      · exact ⟨point, misdirected⟩

theorem fault?_eq_none_iff : fault? line = none ↔ ∀ cause, ¬ Wrong line cause := by
  rw [Option.eq_none_iff_forall_ne_some]
  exact forall_congr' fun cause => not_congr fault?_eq_some_iff

theorem longestLine_lt_of_wrong (wrong : Wrong line .lineTooLong) : longestLine < line.length := by
  cases wrong with
  | tooLong long => exact long
  | directive _ _ misdirected => cases misdirected

theorem length_le_of_wrong (wrong : Wrong line cause) (other : cause ≠ .lineTooLong) :
    line.length ≤ longestLine := by
  cases wrong with
  | tooLong _ => exact absurd rfl other
  | directive short _ _ => exact short

/-! ## One line -/

variable {count : Nat} {last : Bytes} {seen : List Line} {front rest : List Bytes}

theorem exists_lineAfter (clean : fault? line = none) :
    ∃ more, lineAfter count last line = .ok more := by
  rw [fault?] at clean
  split at clean
  · cases clean
  · next short =>
    rw [lineAfter, if_neg short]
    cases read : statement (content line) with
    | error e =>
      rw [read] at clean
      cases clean
    | ok asked => exact ⟨_, rfl⟩

theorem lineAfter_of_directive (wrong : Wrong line cause) (other : cause ≠ .lineTooLong) :
    lineAfter count last line =
      .error (.inListing (Int64.ofNat (count + 1)) (shown line) cause) := by
  have short := Nat.not_lt.mpr (length_le_of_wrong wrong other)
  have found := fault?_eq_some_iff.mpr wrong
  rw [fault?, if_neg short] at found
  rw [lineAfter, if_neg short, ← content_eq_shown]
  cases read : statement (content line) with
  | error e =>
    rw [read] at found
    cases found
    rfl
  | ok asked =>
    rw [read] at found
    cases found

/-! ## The lines in front -/

/-- What is shown of the last of some lines, and `before` if there is none. -/
def lastShown (before : Bytes) (lines : List Bytes) : Bytes :=
  (lines.getLast?.map shown).getD before

theorem lastShown_cons (before line : Bytes) (lines : List Bytes) :
    lastShown before (line :: lines) = lastShown (shown line) lines := by
  rw [lastShown, lastShown, List.getLast?_cons]
  cases lines.getLast? <;> rfl

/-- Lines that are not wrong are read, and the lines behind them with their number and the last of
them. -/
theorem parseLines_append_of_clean (clean : ∀ line ∈ front, fault? line = none)
    (rest : List Bytes) :
    ∃ seen', parseLines count last seen (front ++ rest) =
      parseLines (count + front.length) (lastShown last front) seen' rest := by
  induction front generalizing count last seen with
  | nil => exact ⟨seen, rfl⟩
  | cons line front ih =>
    obtain ⟨more, added⟩ := exists_lineAfter (clean line List.mem_cons_self)
    obtain ⟨seen', behind⟩ := ih (fun line mem => clean line (List.mem_cons_of_mem _ mem))
    refine ⟨seen', ?_⟩
    rw [List.cons_append, parseLines_cons, added]
    show parseLines _ _ _ _ = _
    rw [content_eq_shown, behind, lastShown_cons, List.length_cons, Nat.add_right_comm,
      Nat.add_assoc]

/-! ## Listings -/

/-- The first wrong line of a text, behind lines that are not wrong. -/
structure FirstWrong (text : Bytes) (front : List Bytes) (line : Bytes) (cause : Error) : Prop where
  split : ∃ rest, physicalLines text = front ++ line :: rest
  clean : ∀ earlier ∈ front, ∀ cause, ¬ Wrong earlier cause
  wrong : Wrong line cause

theorem FirstWrong.read (first : FirstWrong text front line cause) :
    ∃ seen rest, parse text =
      parseLines front.length (lastShown [] front) seen (line :: rest) := by
  obtain ⟨rest, split⟩ := first.split
  have clean : ∀ earlier ∈ front, fault? earlier = none := fun earlier mem =>
    fault?_eq_none_iff.mpr (first.clean earlier mem)
  obtain ⟨seen, read⟩ := parseLines_append_of_clean clean (line :: rest)
  refine ⟨seen, rest, ?_⟩
  rw [parse, split, read, Nat.zero_add]

/-- A directive that is none is told with its line. -/
theorem parse_of_directive (first : FirstWrong text front line cause)
    (other : cause ≠ .lineTooLong) :
    parse text = .error (.inListing (Int64.ofNat (front.length + 1)) (shown line) cause) := by
  obtain ⟨seen, rest, read⟩ := first.read
  rw [read, parseLines_cons, lineAfter_of_directive first.wrong other]

/-- A line that is too long is told with the line in front of it. -/
theorem parse_of_tooLong (first : FirstWrong text front line .lineTooLong) :
    parse text = .error (.inListing (Int64.ofNat front.length) (lastShown [] front) .lineTooLong) := by
  obtain ⟨seen, rest, read⟩ := first.read
  rw [read, parseLines_cons, lineAfter, if_pos (longestLine_lt_of_wrong first.wrong)]

/-- A text is refused exactly if one of its lines is wrong. -/
theorem exists_error_iff :
    (∃ e, parse text = .error e) ↔ ∃ front line cause, FirstWrong text front line cause := by
  constructor
  · rintro ⟨e, refused⟩
    cases found : (physicalLines text).find? fun line => (fault? line).isSome with
    | none =>
      have clean : ∀ line ∈ physicalLines text, fault? line = none := by
        intro line mem
        rw [← Option.not_isSome_iff_eq_none]
        exact List.find?_eq_none.mp found line mem
      obtain ⟨seen, read⟩ := parseLines_append_of_clean clean []
      rw [List.append_nil] at read
      rw [parse, read] at refused
      cases refused
    | some line =>
      obtain ⟨wrong, front, rest, split, clean⟩ := List.find?_eq_some_iff_append.mp found
      obtain ⟨cause, fault⟩ := Option.isSome_iff_exists.mp wrong
      refine ⟨front, line, cause, ⟨rest, split⟩, ?_, fault?_eq_some_iff.mp fault⟩
      intro earlier mem
      rw [← fault?_eq_none_iff, ← Option.not_isSome_iff_eq_none, Bool.not_eq_true]
      exact (Bool.not_eq_true' _).mp (clean earlier mem)
  · rintro ⟨front, line, cause, first⟩
    by_cases long : cause = .lineTooLong
    · subst long
      exact ⟨_, parse_of_tooLong first⟩
    · exact ⟨_, parse_of_directive first long⟩

/-- Whether the error of a text points at its first wrong line, with what is wrong with that line. -/
def PointsAtFirstWrong (text : Bytes) : Prop :=
  ∀ front line cause, FirstWrong text front line cause →
    parse text = .error (.inListing (Int64.ofNat (front.length + 1)) (shown line) cause)

/-- **The error of a listing points at its first wrong line, unless that line is too long.**  A text
is refused exactly if one of its lines is wrong.  If the first of them is a directive that is none, the
error has the number of that line, what is shown of it, and what is wrong with it; if it is too long,
the error has the number of the line in front, and what is shown of that.  Numbers are words of 64
bits, and do not wrap around if there are fewer than `2 ^ 63` lines. -/
theorem pointsAtFirstWrong_iff (text : Bytes) :
    ((∃ e, parse text = .error e) ↔ ∃ front line cause, FirstWrong text front line cause) ∧
    (PointsAtFirstWrong text ↔ ∀ front line, ¬ FirstWrong text front line .lineTooLong) ∧
    (∀ front line, FirstWrong text front line .lineTooLong → parse text =
      .error (.inListing (Int64.ofNat front.length) (lastShown [] front) .lineTooLong)) ∧
    ((physicalLines text).length < 2 ^ 63 →
      ∀ front line cause, FirstWrong text front line cause →
        (Int64.ofNat (front.length + 1)).toInt = front.length + 1) := by
  refine ⟨exists_error_iff, ⟨?_, ?_⟩, fun front line => parse_of_tooLong, ?_⟩
  · intro points front line first
    have told := (points front line _ first).symm.trans (parse_of_tooLong first)
    have number := (Error.inListing.inj (Except.error.inj told)).1
    rw [Int64.ofNat_add, Int64.add_eq_left] at number
    cases number
  · intro short front line cause first
    refine parse_of_directive first ?_
    rintro rfl
    exact short front line first
  · rintro few front line cause ⟨⟨rest, split⟩, -, -⟩
    rw [split, List.length_append, List.length_cons] at few
    exact Int64.toInt_ofNat_of_lt (by omega)

/-- A directive that is not known is told, and not the one behind it that has no arguments. -/
theorem pointsAtFirstWrong_of_macro :
    let text := ascii "1\r\n; a\n.macro X\n.set"
    PointsAtFirstWrong text ∧
      parse text = .error (.inListing 3 (ascii ".macro X") .directiveInvalid) := by
  intro text
  have short : ∀ line ∈ physicalLines text, line.length ≤ longestLine := by decide
  have points : PointsAtFirstWrong text := by
    refine (pointsAtFirstWrong_iff text).2.1.mpr fun front line first => ?_
    obtain ⟨rest, split⟩ := first.split
    have mem : line ∈ physicalLines text := by
      rw [split]
      exact List.mem_append_right _ List.mem_cons_self
    exact Nat.not_lt.mpr (short line mem) (longestLine_lt_of_wrong first.wrong)
  have clean : ∀ earlier ∈ [ascii "1\r", ascii "; a"], fault? earlier = none := by decide
  have first : FirstWrong text [ascii "1\r", ascii "; a"] (ascii ".macro X") .directiveInvalid :=
    ⟨⟨[ascii ".set"], by decide⟩, fun earlier mem => fault?_eq_none_iff.mp (clean earlier mem),
      fault?_eq_some_iff.mp (by decide)⟩
  exact ⟨points, points _ _ _ first⟩

/-- A text without a newline is one line. -/
theorem physicalLines_eq_singleton (ne : line ≠ []) (noNewline : 10 ∉ line) :
    physicalLines line = [line] := by
  induction line with
  | nil => exact absurd rfl ne
  | cons b line ih =>
    rw [List.mem_cons, not_or] at noNewline
    have step : physicalLines (b :: line) = lineStep b (physicalLines line) := rfl
    have other : b ≠ 10 := Ne.symm noNewline.1
    rw [step]
    cases line with
    | nil => exact if_neg other
    | cons c line =>
      rw [ih (List.cons_ne_nil c line) noNewline.2]
      exact if_neg other

/-- Whatever long comment stands behind the second line of a text, that line is the first wrong
one. -/
theorem firstWrong_of_comment {comment : Bytes} (long : 65533 < comment.length)
    (noNewline : 10 ∉ comment) :
    FirstWrong (ascii "1\n2;" ++ comment) [ascii "1"] (ascii "2;" ++ comment) .lineTooLong where
  split := by
    have one : physicalLines (ascii "2;" ++ comment) = [ascii "2;" ++ comment] := by
      refine physicalLines_eq_singleton (by simp [ascii]) ?_
      rw [List.mem_append, not_or]
      exact ⟨by decide, noNewline⟩
    refine ⟨[], ?_⟩
    have front : physicalLines (ascii "1" ++ 10 :: (ascii "2;" ++ comment)) =
        ascii "1" :: physicalLines (ascii "2;" ++ comment) :=
      physicalLines_line (by decide) _
    rw [one] at front
    exact front
  clean := by
    have clean : ∀ earlier ∈ [ascii "1"], fault? earlier = none := by decide
    exact fun earlier mem => fault?_eq_none_iff.mp (clean earlier mem)
  wrong := by
    refine .tooLong ?_
    have two : (ascii "2;").length = 2 := by decide
    rw [List.length_append, two, longestLine]
    omega

/-- A comment of 65534 letters makes the second line too long; the first one is told. -/
theorem not_pointsAtFirstWrong_of_comment :
    let text := ascii "1\n2;" ++ List.replicate 65534 120
    FirstWrong text [ascii "1"] (ascii "2;" ++ List.replicate 65534 120) .lineTooLong ∧
      parse text = .error (.inListing 1 (ascii "1") .lineTooLong) ∧ ¬ PointsAtFirstWrong text := by
  intro text
  have noNewline : (10 : UInt8) ∉ List.replicate 65534 120 := by
    intro mem
    cases List.eq_of_mem_replicate mem
  have first : FirstWrong text [ascii "1"] (ascii "2;" ++ List.replicate 65534 120) .lineTooLong :=
    firstWrong_of_comment (by rw [List.length_replicate]; decide) noNewline
  have told : parse text = .error (.inListing 1 (ascii "1") .lineTooLong) := parse_of_tooLong first
  refine ⟨first, told, fun points => ?_⟩
  cases told.symm.trans (points _ _ _ first)

end Rpn.Listing
