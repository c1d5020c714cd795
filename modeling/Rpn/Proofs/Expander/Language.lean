import Mathlib.Computability.Language
import Rpn.Proofs.Expander.Matches
import Rpn.Proofs.Text.Utf8

/-!
# The two patterns as languages

A pattern is a set of texts, told code point by code point, where a byte that begins none counts
as one code point.  That says nothing about how matches are looked for.

* `Expander.quotedLanguage` and `Expander.constantLanguage` — what `'\\?[^']'` and
  `\$\((?:[^()]|\([^()]*\))*\)` mean, built with the operations on languages;
* `Expander.Matches` — a text whose code points are in a language;
* `Expander.matches_quoted_iff` and `Expander.matches_constant_iff` — the bytes of such texts;
* `Expander.quoteMatch?_recognizes` and `Expander.constantMatch?_recognizes_language` — what is
  looked for at the head of a text is the only match there.
-/

namespace Rpn.Expander

open scoped Computability

/-! ## Languages of code points -/

/-- One given code point. -/
def char (c : Nat) : Language (Option Nat) :=
  {[some c]}

/-- One code point, or byte that begins none, other than the given ones. -/
def noneOf (cs : List Nat) : Language (Option Nat) :=
  {points | ∃ point, point ∉ cs.map some ∧ points = [point]}

/-- A quote, an optional backslash, a code point other than a quote, and a quote. -/
def quotedLanguage : Language (Option Nat) :=
  char 39 * (1 + char 92) * noneOf [39] * char 39

/-- What stands in a constant expression: a code point other than a bracket, or a group of such in
brackets. -/
def itemLanguage : Language (Option Nat) :=
  noneOf [40, 41] + char 40 * (noneOf [40, 41])∗ * char 41

/-- A dollar and items in brackets. -/
def constantLanguage : Language (Option Nat) :=
  char 36 * char 40 * itemLanguage∗ * char 41

/-- A text whose code points are in a language. -/
def Matches (language : Language (Option Nat)) (text : Bytes) : Prop :=
  Utf8.points text ∈ language

section Membership

variable {points : List (Option Nat)} {language : Language (Option Nat)} {cs : List Nat} {c : Nat}

theorem mem_char_mul : points ∈ char c * language ↔ ∃ rest ∈ language, points = some c :: rest := by
  rw [Language.mem_mul]
  constructor
  · rintro ⟨_, rfl, rest, mem, rfl⟩
    exact ⟨rest, mem, rfl⟩
  · rintro ⟨rest, mem, rfl⟩
    exact ⟨[some c], rfl, rest, mem, rfl⟩

theorem mem_mul_char :
    points ∈ language * char c ↔ ∃ front ∈ language, points = front ++ [some c] := by
  rw [Language.mem_mul]
  constructor
  · rintro ⟨front, mem, _, rfl, rfl⟩
    exact ⟨front, mem, rfl⟩
  · rintro ⟨front, mem, rfl⟩
    exact ⟨front, mem, [some c], rfl, rfl⟩

/-- Code points none of which is among the given ones. -/
theorem mem_noneOf_kstar : points ∈ (noneOf cs)∗ ↔ ∀ c ∈ cs, some c ∉ points := by
  constructor
  · rintro ⟨chunks, rfl, all⟩ c known mem
    obtain ⟨chunk, among, inside⟩ := List.mem_flatten.mp mem
    obtain ⟨point, other, rfl⟩ := all chunk among
    obtain rfl := List.mem_singleton.mp inside
    exact other (List.mem_map_of_mem known)
  · intro none
    refine ⟨points.map ([·]), ?_, ?_⟩
    · rw [← List.flatMap_def, List.flatMap_singleton']
    · intro chunk among
      obtain ⟨point, mem, rfl⟩ := List.mem_map.mp among
      refine ⟨point, fun other => ?_, rfl⟩
      obtain ⟨c, known, rfl⟩ := List.mem_map.mp other
      exact none c known mem

theorem mem_quotedLanguage :
    points ∈ quotedLanguage ↔ ∃ point, point ≠ some 39 ∧
      (points = [some 39, point, some 39] ∨ points = [some 39, some 92, point, some 39]) := by
  simp only [quotedLanguage, mul_assoc, add_mul, one_mul, mem_char_mul, Language.mem_add,
    mem_mul_char]
  constructor
  · rintro ⟨_, ⟨_, ⟨point, other, rfl⟩, rfl⟩ | ⟨_, ⟨_, ⟨point, other, rfl⟩, rfl⟩, rfl⟩, rfl⟩
    · exact ⟨point, by simpa using other, Or.inl rfl⟩
    · exact ⟨point, by simpa using other, Or.inr rfl⟩
  · rintro ⟨point, other, rfl | rfl⟩
    · exact ⟨_, Or.inl ⟨_, ⟨point, by simpa using other, rfl⟩, rfl⟩, rfl⟩
    · exact ⟨_, Or.inr ⟨_, ⟨_, ⟨point, by simpa using other, rfl⟩, rfl⟩, rfl⟩, rfl⟩

theorem mem_itemLanguage :
    points ∈ itemLanguage ↔ (∃ point, point ≠ some 40 ∧ point ≠ some 41 ∧ points = [point]) ∨
      ∃ group, some 40 ∉ group ∧ some 41 ∉ group ∧ points = some 40 :: (group ++ [some 41]) := by
  simp only [itemLanguage, mul_assoc, mem_char_mul, Language.mem_add, mem_mul_char,
    mem_noneOf_kstar, List.forall_mem_cons, List.not_mem_nil, IsEmpty.forall_iff, implies_true,
    and_true]
  refine or_congr ?_ ?_
  · constructor
    · rintro ⟨point, other, rfl⟩
      simp only [List.map_cons, List.map_nil, List.mem_cons, List.not_mem_nil, or_false,
        not_or] at other
      exact ⟨point, other.1, other.2, rfl⟩
    · rintro ⟨point, opening, closing, rfl⟩
      exact ⟨point, by simp [opening, closing], rfl⟩
  · constructor
    · rintro ⟨_, ⟨group, ⟨opening, closing⟩, rfl⟩, rfl⟩
      exact ⟨group, opening, closing, rfl⟩
    · rintro ⟨group, opening, closing, rfl⟩
      exact ⟨_, ⟨group, ⟨opening, closing⟩, rfl⟩, rfl⟩

theorem mem_constantLanguage :
    points ∈ constantLanguage ↔
      ∃ items ∈ itemLanguage∗, points = some 36 :: some 40 :: (items ++ [some 41]) := by
  simp only [constantLanguage, mul_assoc, mem_char_mul, mem_mul_char]
  constructor
  · rintro ⟨_, ⟨_, ⟨items, mem, rfl⟩, rfl⟩, rfl⟩
    exact ⟨items, mem, rfl⟩
  · rintro ⟨items, mem, rfl⟩
    exact ⟨_, ⟨_, ⟨items, mem, rfl⟩, rfl⟩, rfl⟩

theorem append_mem_kstar {item : List (Option Nat)} (first : item ∈ language)
    (others : points ∈ language∗) : item ++ points ∈ language∗ := by
  obtain ⟨items, rfl, all⟩ := others
  exact ⟨item :: items, rfl, List.forall_mem_cons.mpr ⟨first, all⟩⟩

end Membership

/-! ## Quoted characters -/

section Quotes

variable {text rest chunk : Bytes} {point : Option Nat} {n : Nat}

/-- One code point and a quote are its bytes and a quote. -/
theorem exists_of_closed (closed : Utf8.points text = [point, some 39]) :
    ∃ chunk, text = chunk ++ [39] ∧ Utf8.points chunk = [point] := by
  have split : Utf8.points text = [point] ++ some (39 : UInt8).toNat :: [] := closed
  obtain ⟨chunk, rest, rfl, single, nothing⟩ :=
    Utf8.exists_of_points_eq_append (by decide) split
  rw [Utf8.points_eq_nil_iff.mp nothing]
  exact ⟨chunk, rfl, single⟩

/-- The texts of the first pattern, byte by byte: the bytes of one code point between quotes, or
behind a quote and a backslash. -/
theorem matches_quoted_iff :
    Matches quotedLanguage text ↔ ∃ chunk point, Utf8.points chunk = [point] ∧ point ≠ some 39 ∧
      (text = 39 :: (chunk ++ [39]) ∨ text = 39 :: 92 :: (chunk ++ [39])) := by
  rw [Matches, mem_quotedLanguage]
  constructor
  · rintro ⟨point, other, plain | escaped⟩
    · obtain ⟨rest, rfl, behind⟩ := @Utf8.exists_of_points_eq_cons 39 text (by decide) _ plain
      obtain ⟨chunk, rfl, single⟩ := exists_of_closed behind
      exact ⟨chunk, point, single, other, Or.inl rfl⟩
    · obtain ⟨rest, rfl, slashed⟩ := @Utf8.exists_of_points_eq_cons 39 text (by decide) _ escaped
      obtain ⟨rest, rfl, behind⟩ := @Utf8.exists_of_points_eq_cons 92 rest (by decide) _ slashed
      obtain ⟨chunk, rfl, single⟩ := exists_of_closed behind
      exact ⟨chunk, point, single, other, Or.inr rfl⟩
  · rintro ⟨chunk, point, single, other, rfl | rfl⟩
    · refine ⟨point, other, Or.inl ?_⟩
      rw [Utf8.points_cons_of_lt (by decide), Utf8.points_append_cons (by decide), single]
      rfl
    · refine ⟨point, other, Or.inr ?_⟩
      rw [Utf8.points_cons_of_lt (by decide), Utf8.points_cons_of_lt (by decide),
        Utf8.points_append_cons (by decide), single]
      rfl

theorem ne_nil_of_points (single : Utf8.points chunk = [point]) : chunk ≠ [] := by
  rintro rfl
  cases single

/-- The bytes of a code point other than a quote do not begin with one. -/
theorem head?_ne_quote (single : Utf8.points chunk = [point]) (other : point ≠ some 39) :
    chunk.head? ≠ some 39 := by
  intro quote
  have first := (@Utf8.head?_points_iff 39 chunk (by decide)).mpr quote
  rw [single] at first
  exact other (Option.some.inj first)

/-- The bytes of one code point that begin with a backslash are one backslash. -/
theorem eq_backslash (single : Utf8.points (92 :: chunk) = [point]) : chunk = [] := by
  rw [Utf8.points_cons_of_lt (by decide), List.cons.injEq] at single
  exact Utf8.points_eq_nil_iff.mp single.2

/-- What closes a quoted character is told exactly where it stands. -/
theorem closedPoint?_eq_some_iff :
    closedPoint? text = some n ↔ ∃ chunk rest point, Utf8.points chunk = [point] ∧
      point ≠ some 39 ∧ text = chunk ++ 39 :: rest ∧ chunk.length + 1 = n := by
  constructor
  · intro closed
    simp only [closedPoint?, Bool.or_eq_true, decide_eq_true_eq] at closed
    split at closed
    · cases closed
    · next begins =>
      split at closed
      · next quote =>
        rw [not_or] at begins
        obtain ⟨rest, behind⟩ := List.head?_eq_some_iff.mp quote
        have anew : Utf8.BeginsAnew (text.drop (Utf8.width text)) := by
          rw [behind]
          exact Utf8.beginsAnew_of_lt (by decide) rest
        obtain ⟨point, single⟩ := Utf8.exists_points_take_width begins.2 anew
        have split := List.take_append_drop (Utf8.width text) text
        rw [behind] at split
        have width := Utf8.width_append single (Utf8.beginsAnew_of_lt (c := 39) (by decide) rest)
        rw [split] at width
        refine ⟨text.take (Utf8.width text), rest, point, single, ?_, split.symm, ?_⟩
        · rintro rfl
          have head := (@Utf8.head?_points_iff 39 (text.take (Utf8.width text)) (by decide)).mp
            (by rw [single]; rfl)
          rw [← split, List.head?_append, head] at begins
          exact begins.1 rfl
        · rw [← width]
          exact Option.some.inj closed
      · cases closed
  · rintro ⟨chunk, rest, point, single, other, rfl, rfl⟩
    have ne := ne_nil_of_points single
    have head := head?_ne_quote single other
    have width := Utf8.width_append single (Utf8.beginsAnew_of_lt (c := 39) (by decide) rest)
    obtain ⟨b, more, rfl⟩ := List.exists_cons_of_ne_nil ne
    rw [closedPoint?, width, List.drop_left, if_neg (by simpa using head), List.head?_cons,
      if_pos rfl]

theorem closedPoint?_append (single : Utf8.points chunk = [point]) (other : point ≠ some 39)
    (rest : Bytes) : closedPoint? (chunk ++ 39 :: rest) = some (chunk.length + 1) :=
  closedPoint?_eq_some_iff.mpr ⟨chunk, rest, point, single, other, rfl, rfl⟩

theorem quoteMatch?_of_head?_ne (plain : rest.head? ≠ some 92) :
    quoteMatch? (39 :: rest) = (closedPoint? rest).map (· + 1) := by
  cases rest with
  | nil => rfl
  | cons c more =>
    have ne : c ≠ 92 := fun same => plain (congrArg some same)
    rw [quoteMatch?, if_pos rfl]
    simp only [if_neg ne, Option.none_or]

theorem quoteMatch?_backslash (rest : Bytes) :
    quoteMatch? (39 :: 92 :: rest) =
      ((closedPoint? rest).map (· + 2)).or ((closedPoint? (92 :: rest)).map (· + 1)) := rfl

/-- A quoted character is matched in one way only: behind a quote and a backslash there is either
the quote that closes a quoted backslash, or a code point other than a quote. -/
theorem quoteMatch?_recognizes : Recognizes quoteMatch? (Matches quotedLanguage) where
  ne_nil := by
    intro hit isMatch
    obtain ⟨chunk, point, -, -, rfl | rfl⟩ := matches_quoted_iff.mp isMatch <;>
      exact List.cons_ne_nil 39 _
  found := by
    intro hit isMatch rest
    obtain ⟨chunk, point, single, other, rfl | rfl⟩ := matches_quoted_iff.mp isMatch
    · have closed := closedPoint?_append single other rest
      obtain ⟨b, more, rfl⟩ := List.exists_cons_of_ne_nil (ne_nil_of_points single)
      have text : 39 :: (b :: more ++ [39]) ++ rest = 39 :: (b :: more ++ 39 :: rest) := by simp
      rw [text]
      by_cases slash : b = 92
      · subst slash
        obtain rfl := eq_backslash single
        have none : closedPoint? (39 :: rest) = none := rfl
        show quoteMatch? (39 :: 92 :: 39 :: rest) = _
        rw [quoteMatch?_backslash, none, Option.map_none, Option.none_or]
        exact congrArg (Option.map (· + 1)) closed
      · have plain : (b :: more ++ 39 :: rest).head? ≠ some 92 :=
          fun same => slash (Option.some.inj same)
        rw [quoteMatch?_of_head?_ne plain, closed]
        simp
    · have text : 39 :: 92 :: (chunk ++ [39]) ++ rest = 39 :: 92 :: (chunk ++ 39 :: rest) := by simp
      rw [text, quoteMatch?_backslash, closedPoint?_append single other]
      simp
  sound := by
    intro text n found
    have plain : ∀ rest, (closedPoint? rest).map (· + 1) = some n →
        ∃ hit rest', 39 :: rest = hit ++ rest' ∧ Matches quotedLanguage hit ∧ hit.length = n := by
      intro rest unescaped
      obtain ⟨k, closed, rfl⟩ := Option.map_eq_some_iff.mp unescaped
      obtain ⟨chunk, rest', point, single, other, rfl, rfl⟩ := closedPoint?_eq_some_iff.mp closed
      exact ⟨39 :: (chunk ++ [39]), rest', by simp,
        matches_quoted_iff.mpr ⟨chunk, point, single, other, Or.inl rfl⟩, by simp⟩
    cases text with
    | nil => cases found
    | cons b rest =>
      by_cases quote : b = 39
      · subst quote
        by_cases slash : rest.head? = some 92
        · obtain ⟨more, rfl⟩ := List.head?_eq_some_iff.mp slash
          rw [quoteMatch?_backslash, Option.or_eq_some_iff] at found
          rcases found with escaped | ⟨-, unescaped⟩
          · obtain ⟨k, closed, rfl⟩ := Option.map_eq_some_iff.mp escaped
            obtain ⟨chunk, rest', point, single, other, rfl, rfl⟩ :=
              closedPoint?_eq_some_iff.mp closed
            exact ⟨39 :: 92 :: (chunk ++ [39]), rest', by simp,
              matches_quoted_iff.mpr ⟨chunk, point, single, other, Or.inr rfl⟩, by simp⟩
          · exact plain _ unescaped
        · rw [quoteMatch?_of_head?_ne slash] at found
          exact plain _ found
      · rw [quoteMatch?_of_ne quote] at found
        cases found

end Quotes

/-! ## Constant expressions -/

section Constants

variable {b : UInt8} {text inside chunk : Bytes}

theorem inside_cons_iff (opening : b ≠ 40) (closing : b ≠ 41) :
    Inside (b :: inside) ↔ Inside inside := by
  constructor
  · intro isInside
    cases isInside with
    | byte _ _ rest => exact rest
    | group _ _ _ => exact absurd rfl opening
  · exact .byte opening closing

/-- Bytes other than brackets can be put in front of an inside, and taken away there. -/
theorem inside_append_iff (opening : 40 ∉ chunk) (closing : 41 ∉ chunk) :
    Inside (chunk ++ inside) ↔ Inside inside := by
  induction chunk with
  | nil => rfl
  | cons b chunk ih =>
    rw [List.mem_cons, not_or] at opening closing
    rw [List.cons_append, inside_cons_iff (Ne.symm opening.1) (Ne.symm closing.1),
      ih opening.2 closing.2]

/-- A code point other than a bracket can be put in front of an inside, and taken away there. -/
theorem inside_drop_width_iff (opening : (Utf8.points text).head? ≠ some (some 40))
    (closing : (Utf8.points text).head? ≠ some (some 41)) :
    Inside (text.drop (Utf8.width text)) ↔ Inside text := by
  have noOpening := @Utf8.not_mem_take_width 40 text (by decide) opening
  have noClosing := @Utf8.not_mem_take_width 41 text (by decide) closing
  rw [← inside_append_iff noOpening noClosing, List.take_append_drop]

/-- The code points of an inside are items. -/
theorem Inside.points_mem (h : Inside text) : Utf8.points text ∈ itemLanguage∗ := by
  induction size : text.length using Nat.strongRecOn generalizing text with
  | _ size ih =>
    subst size
    cases h with
    | nil => exact Language.nil_mem_kstar _
    | @byte b rest opening closing isInside =>
      -- the byte may be the first of several that are one code point
      have noOpening : (Utf8.points (b :: rest)).head? ≠ some (some 40) :=
        fun first =>
          opening (Option.some.inj ((@Utf8.head?_points_iff 40 (b :: rest) (by decide)).mp first))
      have noClosing : (Utf8.points (b :: rest)).head? ≠ some (some 41) :=
        fun first =>
          closing (Option.some.inj ((@Utf8.head?_points_iff 41 (b :: rest) (by decide)).mp first))
      obtain ⟨point, first⟩ := Utf8.exists_points_eq_width (List.cons_ne_nil b rest)
      have behind : Inside ((b :: rest).drop (Utf8.width (b :: rest))) :=
        (inside_drop_width_iff noOpening noClosing).mpr (.byte opening closing isInside)
      have shorter : ((b :: rest).drop (Utf8.width (b :: rest))).length < (b :: rest).length := by
        have pos := Utf8.width_pos (b :: rest)
        rw [List.length_drop, List.length_cons]
        omega
      rw [first, List.head?_cons, ne_eq, Option.some.injEq] at noOpening noClosing
      rw [first]
      exact append_mem_kstar (mem_itemLanguage.mpr (Or.inl ⟨point, noOpening, noClosing, rfl⟩))
        (ih _ shorter behind rfl)
    | @group group rest opening closing isInside =>
      have shorter : rest.length < (40 :: (group ++ 41 :: rest)).length := by
        simp only [List.length_cons, List.length_append]
        omega
      have item : some 40 :: (Utf8.points group ++ [some 41]) ∈ itemLanguage :=
        mem_itemLanguage.mpr (Or.inr ⟨Utf8.points group,
          mt (@Utf8.mem_points_iff 40 group (by decide)).mp opening,
          mt (@Utf8.mem_points_iff 41 group (by decide)).mp closing, rfl⟩)
      have split : Utf8.points (40 :: (group ++ 41 :: rest)) =
          some 40 :: (Utf8.points group ++ [some 41]) ++ Utf8.points rest := by
        rw [Utf8.points_cons_of_lt (by decide), Utf8.points_append_cons (by decide)]
        simp
      rw [split]
      exact append_mem_kstar item (ih _ shorter isInside rfl)

/-- A text whose code points are items is an inside. -/
theorem inside_of_points_mem (h : Utf8.points text ∈ itemLanguage∗) : Inside text := by
  obtain ⟨items, split, all⟩ := h
  induction items generalizing text with
  | nil =>
    rw [Utf8.points_eq_nil_iff.mp split]
    exact .nil
  | cons item items ih =>
    rw [List.forall_mem_cons] at all
    rw [List.flatten_cons] at split
    rcases mem_itemLanguage.mp all.1 with
      ⟨point, opening, closing, rfl⟩ | ⟨group, opening, closing, rfl⟩
    · have ne : text ≠ [] := by
        rintro rfl
        cases split
      obtain ⟨point', first⟩ := Utf8.exists_points_eq_width ne
      rw [split, List.singleton_append] at first
      obtain ⟨rfl, behind⟩ := List.cons.inj first
      rw [← inside_drop_width_iff (by simpa [split] using opening) (by simpa [split] using closing)]
      exact ih behind.symm all.2
    · have split : Utf8.points text = some (40 : UInt8).toNat ::
          (group ++ some (41 : UInt8).toNat :: items.flatten) := by
        rw [split]
        simp
      obtain ⟨rest, rfl, behind⟩ := Utf8.exists_of_points_eq_cons (by decide) split
      obtain ⟨group, rest, rfl, rfl, others⟩ :=
        Utf8.exists_of_points_eq_append (by decide) behind
      exact .group (mt (@Utf8.mem_points_iff 40 group (by decide)).mpr opening)
        (mt (@Utf8.mem_points_iff 41 group (by decide)).mpr closing) (ih others all.2)

theorem points_constantText (inside : Bytes) :
    Utf8.points (constantText inside) =
      some 36 :: some 40 :: (Utf8.points inside ++ [some 41]) := by
  rw [constantText, Utf8.points_cons_of_lt (by decide), Utf8.points_cons_of_lt (by decide),
    Utf8.points_append_cons (by decide)]
  rfl

/-- The texts of the second pattern, byte by byte. -/
theorem matches_constant_iff : Matches constantLanguage text ↔ IsConstant text := by
  rw [Matches, mem_constantLanguage]
  constructor
  · rintro ⟨items, mem, split⟩
    have closed : items ++ [some 41] = items ++ some (41 : UInt8).toNat :: [] := rfl
    obtain ⟨rest, rfl, opened⟩ := @Utf8.exists_of_points_eq_cons 36 text (by decide) _ split
    obtain ⟨rest, rfl, behind⟩ := @Utf8.exists_of_points_eq_cons 40 rest (by decide) _ opened
    rw [closed] at behind
    obtain ⟨inside, rest, rfl, rfl, nothing⟩ :=
      Utf8.exists_of_points_eq_append (by decide) behind
    rw [Utf8.points_eq_nil_iff.mp nothing]
    exact ⟨inside, inside_of_points_mem mem, rfl⟩
  · rintro ⟨inside, isInside, rfl⟩
    exact ⟨Utf8.points inside, isInside.points_mem, points_constantText inside⟩

theorem constantMatch?_recognizes_language :
    Recognizes constantMatch? (Matches constantLanguage) := by
  have same : Matches constantLanguage = IsConstant := funext fun _ => propext matches_constant_iff
  rw [same]
  exact constantMatch?_recognizes

end Constants

end Rpn.Expander
