import Rpn.Proofs.Text.Blank

/-!
# Fields and the white space between them

* `Text.AllBlank` — texts of nothing but white space, told by their code points; `allBlank_iff` tells
  them by the bytes of white space;
* `Text.exists_trim` — trimming a text takes off nothing but white space;
* `Text.Cut` — a text whose first word is cut off, with the white space behind it, and `exists_cut`:
  every trimmed text can be cut, as the fields of the text are;
* `Text.Divided` — words that a text is divided into when at most so many of them are cut off, and
  `divided_iff`: these are its fields, and no other words;
* `Text.take_fieldsFrom` — the words do not depend on how many of them are asked for;
* `Text.Division.Passes` — the fields as a loop that cuts off a word in each pass, and
  `exists_passes`: it comes to an end.
-/

namespace Rpn.Text

variable {text word gap rest pattern : Bytes} {words patterns : List Bytes} {n : Nat}

/-! ## Nothing but white space -/

/-- A text of nothing but white space; it may be empty. -/
def AllBlank (text : Bytes) : Prop :=
  ∀ point ∈ Utf8.points text, isBlank point = true

instance (text : Bytes) : Decidable (AllBlank text) :=
  inferInstanceAs (Decidable (∀ point ∈ Utf8.points text, isBlank point = true))

theorem allBlank_append_iff (known : pattern ∈ blanks) :
    AllBlank (pattern ++ rest) ↔ AllBlank rest := by
  obtain ⟨point, blank, points⟩ := blank_mem_points known [] rest
  rw [List.nil_append, Utf8.points_nil, List.nil_append] at points
  rw [AllBlank, points, List.forall_mem_cons]
  exact and_iff_right blank

/-- Nothing but white space is the bytes of white space, one after the other. -/
theorem allBlank_iff :
    AllBlank text ↔
      ∃ patterns : List Bytes, (∀ pattern ∈ patterns, pattern ∈ blanks) ∧ text = patterns.flatten := by
  constructor
  · intro all
    induction text using Utf8.points_induction with
    | nil => exact ⟨[], nofun, rfl⟩
    | more chunk point rest points bytes ih =>
      rw [AllBlank, points, List.forall_mem_cons] at all
      obtain ⟨patterns, known, eq⟩ := ih all.2
      obtain ⟨c, same, mem⟩ := encode_mem_blanks all.1
      refine ⟨Utf8.encode c :: patterns, List.forall_mem_cons.mpr ⟨mem, known⟩, ?_⟩
      rw [List.flatten_cons, bytes c same, ← eq]
  · intro ⟨patterns, known, eq⟩
    subst eq
    induction patterns with
    | nil => exact nofun
    | cons pattern patterns ih =>
      obtain ⟨first, others⟩ := List.forall_mem_cons.mp known
      exact (allBlank_append_iff first).mpr (ih others)

/-- White space begins with the bytes of some. -/
theorem AllBlank.exists_prefix (all : AllBlank gap) (ne : gap ≠ []) :
    ∃ pattern ∈ blanks, pattern <+: gap := by
  obtain ⟨point, first⟩ := Option.ne_none_iff_exists'.mp
    (mt List.head?_eq_none_iff.mp (mt Utf8.points_eq_nil_iff.mp ne))
  exact exists_prefix_of_head? first (all point (List.mem_of_head? first))

/-- White space ends with the bytes of some. -/
theorem AllBlank.exists_suffix (all : AllBlank gap) (ne : gap ≠ []) :
    ∃ pattern ∈ blanks, pattern <:+ gap := by
  obtain ⟨point, last⟩ := Option.ne_none_iff_exists'.mp
    (mt List.getLast?_eq_none_iff.mp (mt Utf8.points_eq_nil_iff.mp ne))
  exact exists_suffix_of_getLast? last (all point (List.mem_of_getLast? last))

theorem AllBlank.beginsAnew (all : AllBlank gap) (ne : gap ≠ []) (rest : Bytes) :
    Utf8.BeginsAnew (gap ++ rest) := by
  obtain ⟨pattern, mem, behind, rfl⟩ := all.exists_prefix ne
  rw [List.append_assoc]
  exact beginsAnew_of_mem_blanks mem (behind ++ rest)

/-- White space ends where a code point ends, whatever follows it. -/
theorem AllBlank.points_append (all : AllBlank gap) (rest : Bytes) :
    Utf8.points (gap ++ rest) = Utf8.points gap ++ Utf8.points rest := by
  obtain ⟨patterns, known, eq⟩ := allBlank_iff.mp all
  rw [eq]
  clear all eq
  induction patterns with
  | nil => rfl
  | cons pattern patterns ih =>
    obtain ⟨first, others⟩ := List.forall_mem_cons.mp known
    obtain ⟨c, valid, -, rfl⟩ := exists_of_mem_blanks first
    rw [List.flatten_cons, List.append_assoc, Utf8.points_encode_append valid,
      Utf8.points_encode_append valid, ih others, List.cons_append]

/-! ## What trimming takes off -/

theorem exists_dropMatches (ne : ∀ pattern ∈ patterns, pattern ≠ []) (text : Bytes) :
    ∃ dropped : List Bytes, (∀ pattern ∈ dropped, pattern ∈ patterns) ∧
      text = dropped.flatten ++ dropMatches patterns 0 text := by
  induction text using dropMatches_induction ne with
  | none text found => exact ⟨[], nofun, (dropMatches_of_none found).symm⟩
  | some text n found _ eq ih =>
    obtain ⟨pattern, known, ⟨rest, rfl⟩, rfl⟩ := exists_of_headMatch? found
    obtain ⟨dropped, others, same⟩ := ih
    refine ⟨pattern :: dropped, List.forall_mem_cons.mpr ⟨known, others⟩, ?_⟩
    rw [eq, List.flatten_cons, List.append_assoc, ← same, List.drop_left]

theorem exists_trimLeft (text : Bytes) : ∃ gap, AllBlank gap ∧ text = gap ++ trimLeft text := by
  obtain ⟨dropped, known, eq⟩ := exists_dropMatches blanks_ne_nil text
  exact ⟨dropped.flatten, allBlank_iff.mpr ⟨dropped, known, rfl⟩, eq⟩

theorem exists_trimRight (text : Bytes) : ∃ gap, AllBlank gap ∧ text = trimRight text ++ gap := by
  obtain ⟨dropped, known, eq⟩ := exists_dropMatches reversedBlanks_ne_nil text.reverse
  refine ⟨dropped.flatten.reverse, ?_, ?_⟩
  · refine allBlank_iff.mpr ⟨(dropped.map List.reverse).reverse, ?_, List.reverse_flatten⟩
    intro pattern mem
    obtain ⟨reversed, mem', rfl⟩ := List.mem_map.mp (List.mem_reverse.mp mem)
    obtain ⟨blank, mem'', rfl⟩ := List.mem_map.mp (known reversed mem')
    rw [List.reverse_reverse]
    exact mem''
  · rw [trimRight, ← List.reverse_append, ← eq, List.reverse_reverse]

/-- Trimming a text takes white space off its ends, and nothing else. -/
theorem exists_trim (text : Bytes) :
    ∃ front back, text = front ++ (trim text ++ back) ∧ AllBlank front ∧ AllBlank back := by
  obtain ⟨front, blank, eq⟩ := exists_trimLeft text
  obtain ⟨back, blank', eq'⟩ := exists_trimRight (trimLeft text)
  exact ⟨front, back, by rw [trim, ← eq', ← eq], blank, blank'⟩

/-- White space in front of a text that begins with none is taken off. -/
theorem trimLeft_append (all : AllBlank gap) (front : ∀ pattern ∈ blanks, ¬ pattern <+: rest) :
    trimLeft (gap ++ rest) = rest := by
  -- no white space is the beginning of other white space
  have apart : ∀ pattern ∈ blanks, ∀ other ∈ blanks, pattern <+: other → pattern = other := by
    decide
  obtain ⟨patterns, known, rfl⟩ := allBlank_iff.mp all
  induction patterns with
  | nil => exact trimLeft_eq_self front
  | cons pattern patterns ih =>
    obtain ⟨first, others⟩ := List.forall_mem_cons.mp known
    rw [List.flatten_cons, List.append_assoc]
    have begins : pattern <+: pattern ++ (patterns.flatten ++ rest) := List.prefix_append _ _
    obtain ⟨n, found⟩ := Option.isSome_iff_exists.mp
      (isSome_blank?_iff.mpr ⟨pattern, first, begins⟩)
    obtain ⟨pattern', mem, begins', rfl⟩ := exists_of_headMatch? found
    have same : pattern' = pattern := by
      rcases List.prefix_or_prefix_of_prefix begins' begins with shorter | longer
      · exact apart pattern' mem pattern first shorter
      · exact (apart pattern first pattern' mem longer).symm
    rw [trimLeft, (dropMatches_of_some blanks_ne_nil found).1, same, List.drop_left]
    exact ih others ((allBlank_append_iff first).mp all)

/-! ## The first word cut off -/

/-- A text whose first word is cut off: behind the word stands white space, and then the rest of the
text, if there is any. -/
structure Cut (text word gap rest : Bytes) : Prop where
  split : text = word ++ (gap ++ rest)
  nonempty : word ≠ []
  free : BlankFree word
  blank : AllBlank gap
  gap_iff : gap = [] ↔ rest = []
  trimmed : Trimmed rest

theorem trimmed_of_blankFree (free : BlankFree word) : Trimmed word where
  front _ first := free _ (List.mem_of_head? first)
  back _ last := free _ (List.mem_of_getLast? last)

theorem Cut.trimmed_text (cut : Cut text word gap rest) : Trimmed text := by
  obtain ⟨rfl, nonempty, free, blank, gap_iff, trimmed⟩ := cut
  have word_points : Utf8.points word ≠ [] := mt Utf8.points_eq_nil_iff.mp nonempty
  by_cases none : gap = []
  · rw [none, gap_iff.mp none, List.append_nil, List.append_nil]
    exact trimmed_of_blankFree free
  · have rest_points : Utf8.points rest ≠ [] :=
      mt Utf8.points_eq_nil_iff.mp (mt gap_iff.mpr none)
    have points : Utf8.points (word ++ (gap ++ rest)) =
        Utf8.points word ++ (Utf8.points gap ++ Utf8.points rest) := by
      rw [Utf8.points_append (blank.beginsAnew none rest), blank.points_append]
    constructor
    · intro point first
      rw [points, List.head?_append_of_ne_nil _ word_points] at first
      exact free point (List.mem_of_head? first)
    · intro point last
      rw [points, ← List.append_assoc, List.getLast?_append_of_ne_nil _ rest_points] at last
      exact trimmed.back point last

theorem Cut.firstWord_eq (cut : Cut text word gap rest) : firstWord text = (word, gap ++ rest) := by
  rw [firstWord_eq_iff]
  refine ⟨cut.split, cut.free, ?_⟩
  by_cases none : gap = []
  · left
    rw [none, cut.gap_iff.mp none, List.append_nil]
  · right
    obtain ⟨pattern, mem, begins⟩ := cut.blank.exists_prefix none
    exact ⟨pattern, mem, begins.trans (List.prefix_append gap rest)⟩

theorem Cut.trimLeft_eq (cut : Cut text word gap rest) : trimLeft (gap ++ rest) = rest :=
  trimLeft_append cut.blank (trimmed_iff.mp cut.trimmed).1

theorem Cut.length_lt (cut : Cut text word gap rest) : rest.length < text.length := by
  have pos := List.length_pos_iff.mpr cut.nonempty
  rw [cut.split, List.length_append, List.length_append]
  omega

/-- The first field is the word that is cut off. -/
theorem Cut.fieldsFrom_eq (cut : Cut text word gap rest) (n : Nat) :
    fieldsFrom (n + 1) text = word :: fieldsFrom n rest := by
  have ne : text ≠ [] := by
    intro empty
    have short := cut.length_lt
    rw [empty] at short
    exact Nat.not_lt_zero _ short
  rw [fieldsFrom_succ ne, cut.firstWord_eq, cut.trimLeft_eq]

/-- A word with a space behind it is cut off in front of a text without white space at its ends. -/
theorem cut_space (nonempty : word ≠ []) (free : BlankFree word) (some : rest ≠ [])
    (trimmed : Trimmed rest) : Cut (word ++ 32 :: rest) word [32] rest where
  split := rfl
  nonempty := nonempty
  free := free
  blank := by decide
  gap_iff := iff_of_false (List.cons_ne_nil _ _) some
  trimmed := trimmed

/-- Every trimmed text can be cut behind its first word. -/
theorem exists_cut (ne : text ≠ []) (trimmed : Trimmed text) :
    ∃ word gap rest, Cut text word gap rest := by
  obtain ⟨front, back⟩ := trimmed_iff.mp trimmed
  obtain ⟨word, behind, split, -, free, next⟩ := firstWord_spec text
  obtain ⟨gap, blank, eq⟩ := exists_trimLeft behind
  have ends : trimLeft behind <:+ text := by
    rw [split]
    exact (trimLeft_spec behind).1.trans (List.suffix_append word behind)
  refine ⟨word, gap, trimLeft behind, ?_, ?_, free, blank, ?_, ?_⟩
  · rw [← eq, ← split]
  · intro empty
    rw [empty, List.nil_append] at split
    rcases next with none | ⟨pattern, mem, begins⟩
    · exact ne (split.trans none)
    · exact front pattern mem (split ▸ begins)
  · constructor
    · intro none
      rw [none, List.nil_append] at eq
      rcases next with empty | ⟨pattern, mem, begins⟩
      · exact eq.symm.trans empty
      · exact absurd (eq ▸ begins) ((trimLeft_spec behind).2 pattern mem)
    · intro empty
      -- otherwise the text would end with white space
      by_contra some
      rw [empty, List.append_nil] at eq
      obtain ⟨pattern, mem, last⟩ := blank.exists_suffix some
      refine back pattern mem ?_
      rw [split, eq]
      exact last.trans (List.suffix_append word gap)
  · refine trimmed_iff.mpr ⟨(trimLeft_spec behind).2, ?_⟩
    intro pattern mem last
    exact back pattern mem (last.trans ends)

/-- A trimmed text has a second field exactly if it has white space. -/
theorem length_fieldsFrom_one (trimmed : Trimmed text) :
    (fieldsFrom 1 text).length = 2 ↔ ¬ BlankFree text := by
  by_cases empty : text = []
  · subst empty
    decide
  · obtain ⟨word, gap, rest, cut⟩ := exists_cut empty trimmed
    rw [cut.fieldsFrom_eq, List.length_cons]
    by_cases none : rest = []
    · rw [cut.split, cut.gap_iff.mpr none, none, List.append_nil, List.append_nil]
      exact iff_of_false (by decide) (not_not_intro cut.free)
    · obtain ⟨pattern, mem, begins⟩ := cut.blank.exists_prefix (mt cut.gap_iff.mp none)
      rw [fieldsFrom_zero none]
      refine iff_of_true rfl fun whole => blankFree_iff.mp whole pattern mem ?_
      rw [cut.split]
      exact (begins.trans (List.prefix_append gap rest)).isInfix.trans
        (List.suffix_append word _).isInfix

/-! ## Divided texts -/

/-- Words in order, with white space between neighbours, and the text that they make. -/
inductive Spaced : List Bytes → Bytes → Prop
  | nil : Spaced [] []
  | last (word : Bytes) : Spaced [word] word
  | next {word gap : Bytes} {words : List Bytes} {rest : Bytes} :
      gap ≠ [] → AllBlank gap → words ≠ [] → Spaced words rest →
      Spaced (word :: words) (word ++ (gap ++ rest))

/-- The words that a text is divided into when at most `n` of them are cut off: the rest of the text
is one word more, whatever white space is inside it. -/
structure Divided (n : Nat) (text : Bytes) (words : List Bytes) : Prop where
  length_le : words.length ≤ n + 1
  nonempty : ∀ word ∈ words, word ≠ []
  free : ∀ word ∈ words.take n, BlankFree word
  trimmed : ∀ word, words[n]? = some word → Trimmed word
  spaced : Spaced words text

theorem divided_nil (n : Nat) : Divided n [] [] :=
  ⟨Nat.zero_le _, nofun, by simp, by simp, .nil⟩

theorem Divided.eq_nil_iff (divided : Divided n text words) : words = [] ↔ text = [] := by
  obtain ⟨-, nonempty, -, -, spaced⟩ := divided
  cases spaced with
  | nil => exact iff_of_true rfl rfl
  | last =>
    refine iff_of_false (List.cons_ne_nil _ _) (nonempty _ List.mem_cons_self)
  | next some _ _ _ =>
    refine iff_of_false (List.cons_ne_nil _ _) fun empty => ?_
    exact some (List.append_eq_nil_iff.mp (List.append_eq_nil_iff.mp empty).2).1

/-- A word cut off in front of words makes one word more. -/
theorem Cut.divided (cut : Cut text word gap rest) (divided : Divided n rest words) :
    Divided (n + 1) text (word :: words) where
  length_le := Nat.succ_le_succ divided.length_le
  nonempty := List.forall_mem_cons.mpr ⟨cut.nonempty, divided.nonempty⟩
  free := by
    rw [List.take_succ_cons]
    exact List.forall_mem_cons.mpr ⟨cut.free, divided.free⟩
  trimmed := by
    intro last found
    rw [List.getElem?_cons_succ] at found
    exact divided.trimmed last found
  spaced := by
    rw [cut.split]
    by_cases none : gap = []
    · have empty := cut.gap_iff.mp none
      rw [divided.eq_nil_iff.mpr empty, none, empty, List.append_nil, List.append_nil]
      exact .last word
    · have some := mt cut.gap_iff.mpr none
      exact .next none cut.blank (mt divided.eq_nil_iff.mp some) divided.spaced

/-- The first of the words is cut off, and the others are those of what is left. -/
theorem Divided.exists_rest (divided : Divided (n + 1) text (word :: words)) :
    ∃ gap rest, Divided n rest words ∧ (Trimmed rest → Cut text word gap rest) := by
  obtain ⟨length_le, nonempty, free, trimmed, spaced⟩ := divided
  rw [List.forall_mem_cons] at nonempty
  rw [List.take_succ_cons, List.forall_mem_cons] at free
  have behind : ∀ rest, Spaced words rest → Divided n rest words := by
    intro rest spaced
    refine ⟨Nat.le_of_succ_le_succ length_le, nonempty.2, free.2, ?_, spaced⟩
    intro last found
    exact trimmed last (by rw [List.getElem?_cons_succ, found])
  cases spaced with
  | last =>
    refine ⟨[], [], behind [] .nil, fun trimmed => ?_⟩
    exact ⟨by simp, nonempty.1, free.1, nofun, Iff.rfl, trimmed⟩
  | @next _ gap _ rest ne blank some spaced =>
    have divided := behind rest spaced
    refine ⟨gap, rest, divided, fun trimmed => ?_⟩
    exact ⟨rfl, nonempty.1, free.1, blank, iff_of_false ne (mt divided.eq_nil_iff.mpr some), trimmed⟩

/-- A text is divided into its fields and no other words, and only a trimmed text is. -/
theorem divided_iff : Divided n text words ↔ Trimmed text ∧ words = fieldsFrom n text := by
  induction n generalizing text words with
  | zero =>
    constructor
    · intro divided
      obtain ⟨length_le, nonempty, -, trimmed, spaced⟩ := divided
      cases spaced with
      | nil => exact ⟨trimmed_of_blankFree nofun, rfl⟩
      | last =>
        exact ⟨trimmed _ rfl, (fieldsFrom_zero (nonempty _ List.mem_cons_self)).symm⟩
      | next _ _ some _ =>
        exact absurd (List.eq_nil_of_length_eq_zero (by simpa using length_le)) some
    · intro ⟨trimmed, eq⟩
      by_cases empty : text = []
      · subst eq empty
        exact divided_nil 0
      · rw [eq, fieldsFrom_zero empty]
        exact ⟨Nat.le_refl 1, by simpa using empty, by simp, by simpa using trimmed, .last text⟩
  | succ n ih =>
    constructor
    · intro divided
      cases words with
      | nil =>
        rw [divided.eq_nil_iff.mp rfl]
        exact ⟨trimmed_of_blankFree nofun, rfl⟩
      | cons word words =>
        obtain ⟨gap, rest, divided', cut⟩ := divided.exists_rest
        obtain ⟨trimmed, eq⟩ := ih.mp divided'
        refine ⟨(cut trimmed).trimmed_text, ?_⟩
        rw [(cut trimmed).fieldsFrom_eq, eq]
    · intro ⟨trimmed, eq⟩
      by_cases empty : text = []
      · subst eq empty
        exact divided_nil (n + 1)
      · obtain ⟨word, gap, rest, cut⟩ := exists_cut empty trimmed
        rw [eq, cut.fieldsFrom_eq]
        exact cut.divided (ih.mpr ⟨cut.trimmed, rfl⟩)

/-- Asking for more words does not change the first of them. -/
theorem take_fieldsFrom {m : Nat} (le : n ≤ m) (text : Bytes) :
    (fieldsFrom m text).take n = (fieldsFrom n text).take n := by
  induction n generalizing m text with
  | zero => rfl
  | succ n ih =>
    obtain ⟨m, rfl⟩ := Nat.exists_eq_add_of_le' (Nat.le_trans (Nat.le_add_left 1 n) le)
    by_cases empty : text = []
    · rw [empty]
      rfl
    · rw [fieldsFrom_succ empty, fieldsFrom_succ empty, List.take_succ_cons, List.take_succ_cons,
        ih (Nat.le_of_succ_le_succ le)]

/-! ## The loop -/

/-- A division under way: the words that were cut off, and what is left of the text. -/
structure Division where
  words : List Bytes
  rest : Bytes

namespace Division

/-- One pass: the first word of what is left is cut off, with the white space behind it. -/
def cut (division : Division) : Division where
  words := division.words ++ [(firstWord division.rest).1]
  rest := trimLeft (firstWord division.rest).2

/-- The words that were cut off, and then what is left, if anything is. -/
def fields (division : Division) : List Bytes :=
  if division.rest = [] then division.words else division.words ++ [division.rest]

/-- Passes that go on while something is left and fewer than `n` words were cut off: how many they
are, and where they end. -/
inductive Passes (n : Nat) : Division → Nat → Division → Prop
  | ended {division : Division} :
      division.rest = [] ∨ n ≤ division.words.length → Passes n division 0 division
  | pass {division last : Division} {k : Nat} :
      division.rest ≠ [] → division.words.length < n → Passes n division.cut k last →
      Passes n division (k + 1) last

/-- The passes over a trimmed text come to an end: they are no more than the words that are asked for, nor
than the bytes of the text, since each takes a byte off at least.  What they end with are the fields. -/
theorem exists_passes (trimmed : Trimmed text) (words : List Bytes) (n : Nat) :
    ∃ k last, Passes (words.length + n) ⟨words, text⟩ k last ∧ k ≤ n ∧ k ≤ text.length ∧
      words ++ fieldsFrom n text = last.fields := by
  induction n generalizing text words with
  | zero =>
    refine ⟨0, ⟨words, text⟩, .ended (Or.inr (Nat.le_refl _)), Nat.le_refl 0, Nat.zero_le _, ?_⟩
    by_cases empty : text = []
    · rw [fields, if_pos empty, empty]
      exact List.append_nil words
    · rw [fields, if_neg empty, fieldsFrom_zero empty]
  | succ n ih =>
    by_cases empty : text = []
    · refine ⟨0, ⟨words, text⟩, .ended (Or.inl empty), Nat.zero_le _, Nat.zero_le _, ?_⟩
      rw [fields, if_pos empty, empty]
      exact List.append_nil words
    · obtain ⟨word, gap, rest, cut⟩ := exists_cut empty trimmed
      obtain ⟨k, last, passes, few, short, eq⟩ := ih cut.trimmed (words ++ [word])
      have next : Division.cut ⟨words, text⟩ = ⟨words ++ [word], rest⟩ := by
        rw [Division.cut, cut.firstWord_eq, cut.trimLeft_eq]
      have length : (words ++ [word]).length + n = words.length + (n + 1) := by
        rw [List.length_append, List.length_singleton, Nat.add_assoc, Nat.add_comm 1]
      rw [length, ← next] at passes
      refine ⟨k + 1, last, .pass empty ?_ passes, Nat.succ_le_succ few, ?_, ?_⟩
      · exact Nat.lt_add_of_pos_right (Nat.succ_pos n)
      · exact Nat.lt_of_le_of_lt short cut.length_lt
      · rw [cut.fieldsFrom_eq, ← eq, List.append_assoc]
        rfl

end Division

end Rpn.Text
