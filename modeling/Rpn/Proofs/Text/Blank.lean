import Mathlib.Data.List.Find
import Mathlib.Data.List.Infix
import Rpn.Proofs.Text.Utf8
import Rpn.Text.Blank

/-!
# White space at the ends of texts and between words

White space is a matter of code points, while texts are trimmed and divided by looking for the
bytes of white space.

* `Text.BlankFree` and `Text.Trimmed` — texts without white space, and without white space at their
  ends, told by their code points;
* `Text.blankFree_iff` and `Text.trimmed_iff` — the same, told by the bytes of white space;
* `Text.trimmed_trim` and `Text.trim_of_trimmed` — trimming gives trimmed texts, and leaves them
  alone;
* `Text.trim_append_return` — a carriage return at the end of a text does not show in what is trimmed;
* `Text.firstWord_spec` — the first word of a text has no white space;
* `Text.firstWord_eq_iff` — the first word of a text is told by the white space behind it.
-/

namespace Rpn.Text

/-- Whether a code point is white space; a byte that begins none is not. -/
def isBlank : Option Nat → Bool
  | some c => blankPoints.contains c
  | none => false

/-- A text without white space. -/
def BlankFree (text : Bytes) : Prop :=
  ∀ point ∈ Utf8.points text, isBlank point = false

/-- A text without white space at its ends. -/
structure Trimmed (text : Bytes) : Prop where
  front : ∀ point, (Utf8.points text).head? = some point → isBlank point = false
  back : ∀ point, (Utf8.points text).getLast? = some point → isBlank point = false

instance (text : Bytes) : Decidable (BlankFree text) :=
  inferInstanceAs (Decidable (∀ point ∈ Utf8.points text, isBlank point = false))

instance (text : Bytes) : Decidable (Trimmed text) :=
  decidable_of_iff ((∀ point ∈ (Utf8.points text).head?, isBlank point = false) ∧
      ∀ point ∈ (Utf8.points text).getLast?, isBlank point = false)
    ⟨fun h => ⟨h.1, h.2⟩, fun h => ⟨h.front, h.back⟩⟩

/-! ## The bytes of white space -/

theorem exists_of_mem_blanks {pattern : Bytes} (h : pattern ∈ blanks) :
    ∃ c, c.isValidChar ∧ isBlank (some c) = true ∧ pattern = Utf8.encode c := by
  have valid : ∀ c ∈ blankPoints, c < 0xD800 := by decide
  obtain ⟨c, mem, rfl⟩ := List.mem_map.mp h
  exact ⟨c, Or.inl (valid c mem), List.contains_iff_mem.mpr mem, rfl⟩

theorem encode_mem_blanks {point : Option Nat} (h : isBlank point = true) :
    ∃ c, point = some c ∧ Utf8.encode c ∈ blanks := by
  cases point with
  | none => cases h
  | some c => exact ⟨c, rfl, List.mem_map_of_mem (List.contains_iff_mem.mp h)⟩

/-- White space begins anew. -/
theorem beginsAnew_of_mem_blanks {pattern : Bytes} (h : pattern ∈ blanks) (rest : Bytes) :
    Utf8.BeginsAnew (pattern ++ rest) := by
  have all : ∀ pattern ∈ blanks, ∃ b more, pattern = b :: more ∧ Utf8.isTail b = false := by
    intro pattern mem
    have ne := blanks_ne_nil pattern mem
    have tails : ∀ pattern ∈ blanks, pattern.head?.all (fun b => !Utf8.isTail b) = true := by decide
    obtain ⟨b, more, rfl⟩ := List.exists_cons_of_ne_nil ne
    exact ⟨b, more, rfl, by simpa using tails _ mem⟩
  obtain ⟨b, more, rfl, no⟩ := all pattern h
  rintro b' ⟨⟩
  exact no

/-- An ASCII byte is no part of longer white space. -/
theorem eq_singleton_of_mem {pattern : Bytes} {b : UInt8} (mem : pattern ∈ blanks) (small : b < 128)
    (h : b ∈ pattern) : pattern = [b] := by
  have all : ∀ pattern ∈ blanks, pattern.all (fun b => b < 128 → pattern = [b]) = true := by decide
  exact of_decide_eq_true (List.all_eq_true.mp (all pattern mem) b h) small

theorem blank_mem_points {pattern : Bytes} (h : pattern ∈ blanks) (front rest : Bytes) :
    ∃ point, isBlank point = true ∧
      Utf8.points (front ++ (pattern ++ rest)) =
        Utf8.points front ++ point :: Utf8.points rest := by
  have anew := beginsAnew_of_mem_blanks h rest
  obtain ⟨c, valid, blank, rfl⟩ := exists_of_mem_blanks h
  exact ⟨some c, blank, by rw [Utf8.points_append anew, Utf8.points_encode_append valid]⟩

theorem exists_infix_of_mem_points {text : Bytes} {point : Option Nat}
    (mem : point ∈ Utf8.points text) (blank : isBlank point = true) :
    ∃ pattern ∈ blanks, pattern <:+: text := by
  induction text using Utf8.points_induction with
  | nil => cases mem
  | more chunk first rest points bytes ih =>
    rw [points] at mem
    rcases List.mem_cons.mp mem with rfl | mem
    · obtain ⟨c, eq, known⟩ := encode_mem_blanks blank
      rw [bytes c eq]
      exact ⟨_, known, (List.prefix_append _ _).isInfix⟩
    · obtain ⟨pattern, known, inside⟩ := ih mem
      exact ⟨pattern, known, inside.trans (List.suffix_append _ _).isInfix⟩

theorem exists_suffix_of_getLast? {text : Bytes} {point : Option Nat}
    (last : (Utf8.points text).getLast? = some point) (blank : isBlank point = true) :
    ∃ pattern ∈ blanks, pattern <:+ text := by
  induction text using Utf8.points_induction with
  | nil => cases last
  | more chunk first rest points bytes ih =>
    rw [points, List.getLast?_cons] at last
    cases behind : (Utf8.points rest).getLast? with
    | none =>
      -- the code point is the last one
      rw [behind] at last
      obtain rfl : first = point := Option.some.inj last
      obtain ⟨c, eq, known⟩ := encode_mem_blanks blank
      have empty : rest = [] := Utf8.points_eq_nil_iff.mp (List.getLast?_eq_none_iff.mp behind)
      rw [empty, List.append_nil, bytes c eq]
      exact ⟨_, known, List.suffix_refl _⟩
    | some point' =>
      rw [behind] at last
      obtain rfl : point' = point := Option.some.inj last
      obtain ⟨pattern, known, ends⟩ := ih behind
      exact ⟨pattern, known, ends.trans (List.suffix_append _ _)⟩

theorem exists_prefix_of_head? {text : Bytes} {point : Option Nat}
    (first : (Utf8.points text).head? = some point) (blank : isBlank point = true) :
    ∃ pattern ∈ blanks, pattern <+: text := by
  induction text using Utf8.points_induction with
  | nil => cases first
  | more chunk point' rest points bytes _ =>
    rw [points, List.head?_cons] at first
    obtain rfl : point' = point := Option.some.inj first
    obtain ⟨c, eq, known⟩ := encode_mem_blanks blank
    rw [bytes c eq]
    exact ⟨_, known, List.prefix_append _ _⟩

/-- A text has white space exactly if the bytes of some white space stand in it. -/
theorem blankFree_iff {text : Bytes} :
    BlankFree text ↔ ∀ pattern ∈ blanks, ¬ pattern <:+: text := by
  constructor
  · rintro free pattern mem ⟨front, rest, rfl⟩
    obtain ⟨point, blank, points⟩ := blank_mem_points mem front rest
    rw [List.append_assoc] at free
    have no := free point (by rw [points]; simp)
    rw [no] at blank
    cases blank
  · intro h point mem
    rw [← Bool.not_eq_true]
    intro blank
    obtain ⟨pattern, known, inside⟩ := exists_infix_of_mem_points mem blank
    exact h pattern known inside

/-- A text has white space at an end exactly if the bytes of some white space stand there. -/
theorem trimmed_iff {text : Bytes} :
    Trimmed text ↔
      (∀ pattern ∈ blanks, ¬ pattern <+: text) ∧ (∀ pattern ∈ blanks, ¬ pattern <:+ text) := by
  constructor
  · intro trimmed
    constructor
    · rintro pattern mem ⟨rest, rfl⟩
      obtain ⟨point, blank, points⟩ := blank_mem_points mem [] rest
      have no := trimmed.front point (by rw [← List.nil_append (pattern ++ rest), points]; rfl)
      rw [no] at blank
      cases blank
    · rintro pattern mem ⟨front, rfl⟩
      obtain ⟨point, blank, points⟩ := blank_mem_points mem front []
      rw [List.append_nil] at points
      have no := trimmed.back point (by rw [points]; simp)
      rw [no] at blank
      cases blank
  · rintro ⟨front, back⟩
    constructor
    · intro point first
      rw [← Bool.not_eq_true]
      intro blank
      obtain ⟨pattern, known, begins⟩ := exists_prefix_of_head? first blank
      exact front pattern known begins
    · intro point last
      rw [← Bool.not_eq_true]
      intro blank
      obtain ⟨pattern, known, ends⟩ := exists_suffix_of_getLast? last blank
      exact back pattern known ends

/-! ## Trimming -/

section Matches

variable {patterns : List Bytes}

theorem headMatch?_eq_none_iff {text : Bytes} :
    headMatch? patterns text = none ↔ ∀ pattern ∈ patterns, ¬ pattern <+: text := by
  simp [headMatch?, List.find?_eq_none]

theorem exists_of_headMatch? {text : Bytes} {n : Nat} (h : headMatch? patterns text = some n) :
    ∃ pattern ∈ patterns, pattern <+: text ∧ pattern.length = n := by
  obtain ⟨pattern, found, length⟩ := Option.map_eq_some_iff.mp h
  have begins := List.find?_some found
  exact ⟨pattern, List.mem_of_find?_eq_some found, List.isPrefixOf_iff_prefix.mp begins, length⟩

theorem dropMatches_skip (skip : Nat) (text : Bytes) :
    dropMatches patterns skip text = dropMatches patterns 0 (text.drop skip) := by
  induction text generalizing skip with
  | nil => simp [dropMatches]
  | cons b rest ih =>
    cases skip with
    | zero => rfl
    | succ skip => exact ih skip

theorem dropMatches_of_none {text : Bytes} (h : headMatch? patterns text = none) :
    dropMatches patterns 0 text = text := by
  cases text with
  | nil => rfl
  | cons b rest => rw [dropMatches, h]

/-- A match at the head is dropped, and then what follows is looked at. -/
theorem dropMatches_of_some (ne : ∀ pattern ∈ patterns, pattern ≠ []) {text : Bytes} {n : Nat}
    (h : headMatch? patterns text = some n) :
    dropMatches patterns 0 text = dropMatches patterns 0 (text.drop n) ∧
      0 < n ∧ n ≤ text.length := by
  obtain ⟨pattern, known, begins, rfl⟩ := exists_of_headMatch? h
  have pos : 0 < pattern.length := List.length_pos_iff.mpr (ne pattern known)
  have le := begins.length_le
  cases text with
  | nil =>
    rw [List.length_nil] at le
    omega
  | cons b rest =>
    refine ⟨?_, pos, le⟩
    obtain ⟨m, length⟩ : ∃ m, pattern.length = m + 1 := ⟨pattern.length - 1, by omega⟩
    rw [dropMatches, h]
    simp only [length, Nat.add_sub_cancel, List.drop_succ_cons]
    exact dropMatches_skip m rest

/-- What holds where no match is at the head, and of a text if it holds behind the match at its head,
holds of every text. -/
theorem dropMatches_induction (ne : ∀ pattern ∈ patterns, pattern ≠ []) {P : Bytes → Prop}
    (none : ∀ text, headMatch? patterns text = none → P text)
    (some : ∀ text n, headMatch? patterns text = some n → n ≤ text.length →
      dropMatches patterns 0 text = dropMatches patterns 0 (text.drop n) → P (text.drop n) → P text)
    (text : Bytes) : P text := by
  induction length : text.length using Nat.strongRecOn generalizing text with
  | _ n ih =>
    subst length
    cases found : headMatch? patterns text with
    | none => exact none text found
    | some n =>
      obtain ⟨eq, pos, le⟩ := dropMatches_of_some ne found
      have shorter : (text.drop n).length < text.length := by
        rw [List.length_drop]
        omega
      exact some text n found le eq (ih _ shorter (text.drop n) rfl)

/-- What is left when matches are dropped is an end of the text, and begins with none. -/
theorem dropMatches_spec (ne : ∀ pattern ∈ patterns, pattern ≠ []) (text : Bytes) :
    dropMatches patterns 0 text <:+ text ∧
      ∀ pattern ∈ patterns, ¬ pattern <+: dropMatches patterns 0 text := by
  induction text using dropMatches_induction ne with
  | none text found =>
    rw [dropMatches_of_none found]
    exact ⟨List.suffix_refl _, headMatch?_eq_none_iff.mp found⟩
  | some text n _ _ eq ih =>
    rw [eq]
    exact ⟨ih.1.trans (List.drop_suffix _ _), ih.2⟩

end Matches

theorem trimLeft_spec (text : Bytes) :
    trimLeft text <:+ text ∧ ∀ pattern ∈ blanks, ¬ pattern <+: trimLeft text :=
  dropMatches_spec blanks_ne_nil text

theorem trimLeft_eq_self {text : Bytes} (h : ∀ pattern ∈ blanks, ¬ pattern <+: text) :
    trimLeft text = text :=
  dropMatches_of_none (headMatch?_eq_none_iff.mpr h)

theorem forall_mem_reversedBlanks {P : Bytes → Prop} :
    (∀ pattern ∈ reversedBlanks, P pattern) ↔ ∀ pattern ∈ blanks, P pattern.reverse :=
  List.forall_mem_map

theorem reversedBlanks_ne_nil : ∀ pattern ∈ reversedBlanks, pattern ≠ [] :=
  forall_mem_reversedBlanks.mpr fun pattern mem => by simpa using blanks_ne_nil pattern mem

theorem trimRight_spec (text : Bytes) :
    trimRight text <+: text ∧ ∀ pattern ∈ blanks, ¬ pattern <:+ trimRight text := by
  obtain ⟨ends, none⟩ := dropMatches_spec reversedBlanks_ne_nil text.reverse
  constructor
  · rw [← List.reverse_suffix, trimRight, List.reverse_reverse]
    exact ends
  · intro pattern mem ends'
    apply forall_mem_reversedBlanks.mp none pattern mem
    rw [← List.reverse_suffix, List.reverse_reverse]
    exact ends'

theorem trimRight_eq_self {text : Bytes} (h : ∀ pattern ∈ blanks, ¬ pattern <:+ text) :
    trimRight text = text := by
  have none : headMatch? reversedBlanks text.reverse = none := by
    rw [headMatch?_eq_none_iff, forall_mem_reversedBlanks]
    intro pattern mem begins
    exact h pattern mem (List.reverse_prefix.mp begins)
  rw [trimRight, dropMatches_of_none none, List.reverse_reverse]

theorem trim_infix (text : Bytes) : trim text <:+: text :=
  (trimRight_spec _).1.isInfix.trans (trimLeft_spec text).1.isInfix

/-- Trimming a text leaves no white space at its ends. -/
theorem trimmed_trim (text : Bytes) : Trimmed (trim text) := by
  obtain ⟨begins, back⟩ := trimRight_spec (trimLeft text)
  refine trimmed_iff.mpr ⟨?_, back⟩
  intro pattern mem front
  exact (trimLeft_spec text).2 pattern mem (front.trans begins)

/-- A trimmed text is left alone. -/
theorem trim_of_trimmed {text : Bytes} (h : Trimmed text) : trim text = text := by
  obtain ⟨front, back⟩ := trimmed_iff.mp h
  rw [trim, trimLeft_eq_self front, trimRight_eq_self back]

/-! ## A carriage return at the end -/

theorem headMatch?_append_return {text : Bytes} (ne : text ≠ []) :
    headMatch? blanks (text ++ [13]) = headMatch? blanks text := by
  rw [headMatch?, headMatch?]
  congr 1
  refine List.find?_congr fun pattern mem => ?_
  rw [Bool.eq_iff_iff, List.isPrefixOf_iff_prefix, List.isPrefixOf_iff_prefix,
    List.prefix_concat_iff]
  refine or_iff_right ?_
  -- white space that reaches the carriage return would be longer than that
  rintro rfl
  have single := eq_singleton_of_mem mem (by decide) (List.mem_append_right text List.mem_cons_self)
  exact ne (List.append_left_eq_self.mp single)

theorem trimLeft_append_return (text : Bytes) :
    trimLeft (text ++ [13]) = if trimLeft text = [] then [] else trimLeft text ++ [13] := by
  by_cases ne : text = []
  · subst ne
    decide
  · induction text using dropMatches_induction blanks_ne_nil with
    | none text found =>
      have same := (headMatch?_append_return ne).trans found
      rw [trimLeft, trimLeft, dropMatches_of_none same, dropMatches_of_none found, if_neg ne]
    | some text n found le eq ih =>
      have same := (headMatch?_append_return ne).trans found
      rw [trimLeft, trimLeft, eq, (dropMatches_of_some blanks_ne_nil same).1,
        List.drop_append_of_le_length le]
      by_cases last : text.drop n = []
      · rw [last]
        decide
      · exact ih last

theorem trimRight_append_return (text : Bytes) : trimRight (text ++ [13]) = trimRight text := by
  have some : ∃ n, headMatch? reversedBlanks (13 :: text.reverse) = some n := by
    rw [← Option.ne_none_iff_exists', ne_eq, headMatch?_eq_none_iff]
    exact fun none => none [13] (by decide) ⟨text.reverse, rfl⟩
  obtain ⟨n, found⟩ := some
  obtain ⟨pattern, mem, begins, rfl⟩ := exists_of_headMatch? found
  have single : pattern = [13] := by
    obtain ⟨b, more, rfl⟩ := List.exists_cons_of_ne_nil (reversedBlanks_ne_nil pattern mem)
    obtain ⟨rfl, -⟩ := List.cons_prefix_cons.mp begins
    obtain ⟨blank, known, eq⟩ := List.mem_map.mp mem
    have alone := eq_singleton_of_mem known (by decide) (List.mem_reverse.mp (eq ▸ List.mem_cons_self))
    rw [← eq, alone]
    rfl
  rw [trimRight, List.reverse_append, List.reverse_singleton, List.singleton_append,
    (dropMatches_of_some reversedBlanks_ne_nil found).1, single]
  rfl

/-- A carriage return at the end of a text is trimmed with it. -/
theorem trim_append_return (text : Bytes) : trim (text ++ [13]) = trim text := by
  rw [trim, trim, trimLeft_append_return]
  split
  · next empty => rw [empty]
  · exact trimRight_append_return _

/-! ## Words -/

theorem isSome_blank?_iff {text : Bytes} :
    (blank? text).isSome = true ↔ ∃ pattern ∈ blanks, pattern <+: text := by
  rw [← not_iff_not, Bool.not_eq_true, Option.isSome_eq_false_iff, Option.isNone_iff_eq_none,
    blank?, headMatch?_eq_none_iff]
  simp only [not_exists, not_and]

/-- The first word reaches up to the first white space. -/
theorem firstWordFrom_spec (word text : Bytes) :
    ∃ more rest, text = more ++ rest ∧ firstWordFrom word text = (word.reverse ++ more, rest) ∧
      (∀ pattern ∈ blanks, ¬ pattern <:+: more) ∧
      (rest = [] ∨ ∃ pattern ∈ blanks, pattern <+: rest) := by
  induction text generalizing word with
  | nil =>
    refine ⟨[], [], rfl, ?_, ?_, Or.inl rfl⟩
    · simp [firstWordFrom]
    · intro pattern mem inside
      exact blanks_ne_nil pattern mem (List.infix_nil.mp inside)
  | cons b text ih =>
    by_cases found : (blank? (b :: text)).isSome = true
    · refine ⟨[], b :: text, rfl, ?_, ?_, Or.inr (isSome_blank?_iff.mp found)⟩
      · simp [firstWordFrom, found]
      · intro pattern mem inside
        exact blanks_ne_nil pattern mem (List.infix_nil.mp inside)
    · obtain ⟨more, rest, rfl, eq, free, next⟩ := ih (b :: word)
      refine ⟨b :: more, rest, rfl, ?_, ?_, next⟩
      · rw [firstWordFrom, if_neg found, eq]
        simp
      · intro pattern mem inside
        rcases List.infix_cons_iff.mp inside with begins | inside
        · apply found
          rw [isSome_blank?_iff]
          exact ⟨pattern, mem, begins.trans ⟨rest, rfl⟩⟩
        · exact free pattern mem inside

/-- The first word of a text has no white space, and what follows it begins with some. -/
theorem firstWord_spec (text : Bytes) :
    ∃ word rest, text = word ++ rest ∧ firstWord text = (word, rest) ∧ BlankFree word ∧
      (rest = [] ∨ ∃ pattern ∈ blanks, pattern <+: rest) := by
  obtain ⟨word, rest, split, eq, free, next⟩ := firstWordFrom_spec [] text
  exact ⟨word, rest, split, eq, blankFree_iff.mpr free, next⟩

/-- A text that begins with a word: behind the word stands white space, or nothing. -/
structure FirstWord (text word rest : Bytes) : Prop where
  split : text = word ++ rest
  free : BlankFree word
  next : rest = [] ∨ ∃ pattern ∈ blanks, pattern <+: rest

theorem FirstWord.eq_nil {text word more rest rest' : Bytes} (short : FirstWord text word rest)
    (long : FirstWord text (word ++ more) rest') : more = [] := by
  by_contra ne
  have behind : rest = more ++ rest' := by
    have same := short.split.symm.trans long.split
    rw [List.append_assoc] at same
    exact List.append_cancel_left same
  have free : ∀ pattern ∈ blanks, ¬ pattern <+: more := by
    intro pattern mem begins
    exact blankFree_iff.mp long.free pattern mem
      (begins.isInfix.trans (List.suffix_append word more).isInfix)
  rcases short.next with empty | ⟨pattern, mem, begins⟩
  · rw [behind] at empty
    exact ne (List.append_eq_nil_iff.mp empty).1
  · rw [behind] at begins
    rcases List.prefix_or_prefix_of_prefix begins (List.prefix_append more rest') with
      inside | ⟨tail, rfl⟩
    · exact free pattern mem inside
    · rw [List.prefix_append_right_inj] at begins
      cases tail with
      | nil => exact free _ mem (by rw [List.append_nil])
      | cons b tail =>
        -- white space would begin at an inner byte of white space
        have inner : ∀ pattern ∈ blanks, pattern.tail.all Utf8.isTail = true := by decide
        obtain ⟨a, more, rfl⟩ := List.exists_cons_of_ne_nil ne
        have tail_b : Utf8.isTail b = true := List.all_eq_true.mp (inner _ mem) b (by simp)
        obtain ⟨rest'', rfl⟩ := begins
        rcases long.next with empty | ⟨pattern', mem', behind', eq⟩
        · cases empty
        · have anew := beginsAnew_of_mem_blanks mem' behind'
          rw [eq] at anew
          rw [anew b rfl] at tail_b
          cases tail_b

/-- A text begins with one word. -/
theorem FirstWord.unique {text word word' rest rest' : Bytes} (h : FirstWord text word rest)
    (h' : FirstWord text word' rest') : word = word' ∧ rest = rest' := by
  have begins : word <+: text := ⟨rest, h.split.symm⟩
  have begins' : word' <+: text := ⟨rest', h'.split.symm⟩
  have same : word = word' := by
    rcases List.prefix_or_prefix_of_prefix begins begins' with ⟨more, rfl⟩ | ⟨more, rfl⟩
    · rw [h.eq_nil h', List.append_nil]
    · rw [h'.eq_nil h, List.append_nil]
  subst same
  exact ⟨rfl, List.append_cancel_left (h.split.symm.trans h'.split)⟩

/-- The first word of a text is what the text is split behind. -/
theorem firstWord_eq_iff {text word rest : Bytes} :
    firstWord text = (word, rest) ↔ FirstWord text word rest := by
  obtain ⟨word', rest', split, eq, free, next⟩ := firstWord_spec text
  have first : FirstWord text word' rest' := ⟨split, free, next⟩
  constructor
  · intro same
    cases eq.symm.trans same
    exact first
  · intro other
    obtain ⟨rfl, rfl⟩ := first.unique other
    exact eq

theorem fieldsFrom_zero {text : Bytes} (ne : text ≠ []) : fieldsFrom 0 text = [text] := by
  obtain ⟨b, rest, rfl⟩ := List.exists_cons_of_ne_nil ne
  rfl

theorem fieldsFrom_succ {text : Bytes} (ne : text ≠ []) (n : Nat) :
    fieldsFrom (n + 1) text = (firstWord text).1 :: fieldsFrom n (trimLeft (firstWord text).2) := by
  obtain ⟨b, rest, rfl⟩ := List.exists_cons_of_ne_nil ne
  rfl

end Rpn.Text
