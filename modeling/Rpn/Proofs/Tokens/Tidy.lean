import Mathlib.Data.List.Chain
import Mathlib.Data.List.Infix
import Rpn.Proofs.Tokens

/-!
# Tidy texts

A text is tidy if it holds no delimiter that divides nothing: none at its ends, and no two next to
one another.

* `Tidy` and `Neat` — tidy texts, and those that are not empty;
* `tidy_append_cons` — two texts with a delimiter between them;
* `neat_intercalate_iff` and `tidy_intercalate_iff` — texts that are joined by the delimiter;
* `tidy_iff_intercalate_runs` — tidy texts are those that joining their runs gives back.
-/

namespace Rpn

/-- Every delimiter of a text divides something from something. -/
structure Tidy (delimiter : UInt8) (text : Bytes) : Prop where
  head : text.head? ≠ some delimiter
  last : text.getLast? ≠ some delimiter
  apart : ¬ [delimiter, delimiter] <:+: text

/-- A tidy text that is not empty. -/
structure Neat (delimiter : UInt8) (text : Bytes) : Prop extends Tidy delimiter text where
  nonempty : text ≠ []

instance (delimiter : UInt8) (text : Bytes) : Decidable (Tidy delimiter text) :=
  decidable_of_iff (text.head? ≠ some delimiter ∧ text.getLast? ≠ some delimiter ∧
      ¬ [delimiter, delimiter] <:+: text)
    ⟨fun ⟨head, last, apart⟩ => ⟨head, last, apart⟩, fun h => ⟨h.head, h.last, h.apart⟩⟩

instance (delimiter : UInt8) (text : Bytes) : Decidable (Neat delimiter text) :=
  decidable_of_iff (Tidy delimiter text ∧ text ≠ [])
    ⟨fun ⟨tidy, nonempty⟩ => ⟨tidy, nonempty⟩, fun h => ⟨h.toTidy, h.nonempty⟩⟩

variable {delimiter : UInt8} {text front rest word : Bytes} {words : List Bytes}

theorem tidy_nil (delimiter : UInt8) : Tidy delimiter [] := by
  refine ⟨nofun, nofun, ?_⟩
  rintro ⟨before, after, eq⟩
  simp at eq

theorem tidy_iff : Tidy delimiter text ↔ text = [] ∨ Neat delimiter text := by
  constructor
  · intro tidy
    by_cases empty : text = []
    · exact Or.inl empty
    · exact Or.inr ⟨tidy, empty⟩
  · rintro (rfl | neat)
    · exact tidy_nil delimiter
    · exact neat.toTidy

theorem neat_of_isToken (h : IsToken delimiter word) : Neat delimiter word where
  head same := h.no_delimiter (List.mem_of_mem_head? same)
  last same := h.no_delimiter (List.mem_of_getLast? same)
  apart inside := h.no_delimiter (inside.mem List.mem_cons_self)
  nonempty := h.nonempty

/-! ## Joined texts -/

/-- No two delimiters stand next to one another if of no two neighbours both are delimiters. -/
theorem not_pair_infix_iff :
    ¬ [delimiter, delimiter] <:+: text ↔
      text.IsChain fun a b => ¬ (a = delimiter ∧ b = delimiter) := by
  rw [List.isChain_iff_forall_rel_of_append_cons_cons]
  constructor
  · rintro apart _ _ before after rfl ⟨rfl, rfl⟩
    exact apart ⟨before, after, by simp⟩
  · rintro chain ⟨before, after, rfl⟩
    have split : before ++ [delimiter, delimiter] ++ after =
        before ++ delimiter :: delimiter :: after := by simp
    exact chain split ⟨rfl, rfl⟩

/-- A delimiter between two texts divides something exactly if neither of them is empty, and the text
is tidy exactly if they are tidy as well. -/
theorem tidy_append_cons :
    Tidy delimiter (front ++ delimiter :: rest) ↔ Neat delimiter front ∧ Neat delimiter rest := by
  have pairs : ¬ [delimiter, delimiter] <:+: front ++ delimiter :: rest ↔
      (¬ [delimiter, delimiter] <:+: front ∧ front.getLast? ≠ some delimiter) ∧
        ¬ [delimiter, delimiter] <:+: rest ∧ rest.head? ≠ some delimiter := by
    simp only [not_pair_infix_iff, List.isChain_append, List.isChain_cons, List.head?_cons,
      Option.mem_def, Option.some.injEq]
    grind
  have head : (front ++ delimiter :: rest).head? ≠ some delimiter ↔
      front ≠ [] ∧ front.head? ≠ some delimiter := by
    cases front <;> simp
  have last : (front ++ delimiter :: rest).getLast? ≠ some delimiter ↔
      rest ≠ [] ∧ rest.getLast? ≠ some delimiter := by
    rw [List.getLast?_append_cons]
    cases rest <;> simp
  constructor
  · rintro ⟨first, final, apart⟩
    obtain ⟨nonempty, first⟩ := head.mp first
    obtain ⟨nonempty', final⟩ := last.mp final
    obtain ⟨⟨apart, turn⟩, apart', turn'⟩ := pairs.mp apart
    exact ⟨⟨⟨first, turn, apart⟩, nonempty⟩, ⟨⟨turn', final, apart'⟩, nonempty'⟩⟩
  · rintro ⟨before, behind⟩
    exact ⟨head.mpr ⟨before.nonempty, before.head⟩, last.mpr ⟨behind.nonempty, behind.last⟩,
      pairs.mpr ⟨⟨before.apart, before.last⟩, behind.apart, behind.head⟩⟩

/-- Joined texts are neat exactly if each of them is, and there is one. -/
theorem neat_intercalate_iff :
    Neat delimiter ([delimiter].intercalate words) ↔
      words ≠ [] ∧ ∀ word ∈ words, Neat delimiter word := by
  induction words with
  | nil => exact ⟨fun neat => absurd rfl neat.nonempty, fun h => absurd rfl h.1⟩
  | cons word words ih =>
    cases words with
    | nil => simp
    | cons next words =>
      have nonempty : word ++ delimiter :: [delimiter].intercalate (next :: words) ≠ [] := by simp
      rw [List.intercalate_cons_cons, List.append_assoc, List.singleton_append,
        List.forall_mem_cons]
      constructor
      · intro neat
        obtain ⟨first, others⟩ := tidy_append_cons.mp neat.toTidy
        exact ⟨List.cons_ne_nil _ _, first, (ih.mp others).2⟩
      · rintro ⟨-, first, others⟩
        have joined := ih.mpr ⟨List.cons_ne_nil _ _, others⟩
        exact ⟨tidy_append_cons.mpr ⟨first, joined⟩, nonempty⟩

/-- Joined texts are tidy exactly if nothing is left of them, or each of them is neat. -/
theorem tidy_intercalate_iff :
    Tidy delimiter ([delimiter].intercalate words) ↔
      [delimiter].intercalate words = [] ∨ ∀ word ∈ words, Neat delimiter word := by
  rw [tidy_iff, neat_intercalate_iff]
  refine or_congr_right' fun some => ?_
  have nonempty : words ≠ [] := by
    rintro rfl
    exact some rfl
  exact and_iff_right nonempty

/-! ## Runs -/

theorem intercalate_runs_of_tidy (tidy : Tidy delimiter text) :
    [delimiter].intercalate (runs delimiter text) = text := by
  induction size : text.length using Nat.strongRecOn generalizing text with
  | _ size ih =>
    subst size
    by_cases divided : delimiter ∈ text
    · -- the text up to the first delimiter is a run, and there is one behind it
      obtain ⟨word, rest, rfl, free⟩ := List.eq_append_cons_of_mem divided
      obtain ⟨first, others⟩ := tidy_append_cons.mp tidy
      have shorter : rest.length < (word ++ delimiter :: rest).length := by
        rw [List.length_append, List.length_cons]
        omega
      have joined := ih rest.length shorter others.toTidy rfl
      obtain ⟨next, more, split⟩ : ∃ next more, runs delimiter rest = next :: more := by
        refine List.exists_cons_of_ne_nil fun none => others.nonempty ?_
        rw [← joined, none]
        rfl
      rw [runs_append, runs_of_not_mem free, consRun, if_neg first.nonempty, List.singleton_append,
        split, List.intercalate_cons_cons, ← split, joined, List.append_assoc,
        List.singleton_append]
    · rw [runs_of_not_mem divided, consRun]
      split
      · next empty => rw [empty]; rfl
      · exact List.intercalate_singleton

/-- A text without a NUL is tidy exactly if joining its runs gives it back. -/
theorem tidy_iff_intercalate_runs (noNul : (0 : UInt8) ∉ text) :
    Tidy delimiter text ↔ [delimiter].intercalate (runs delimiter text) = text := by
  refine ⟨intercalate_runs_of_tidy, fun same => ?_⟩
  rw [← same, tidy_intercalate_iff]
  exact Or.inr fun run mem => neat_of_isToken (isToken_of_mem_runs noNul mem)

end Rpn
