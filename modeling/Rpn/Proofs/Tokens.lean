import Mathlib.Data.List.Basic
import Mathlib.Data.List.TakeWhile
import Rpn.Tokens

/-!
# The tokens of a joined text

* `IsToken` — a text that can stand as a token under a delimiter, and `isToken_of_mem_tokens` for
  those of an expression;
* `tokens_append` — a delimiter divides the tokens of an expression;
* `runs_intercalate_flatMap` — texts joined by the delimiter have the runs of each in order;
* `tokens_intercalate` — tokens joined by the delimiter are read back as they were.
-/

namespace Rpn

/-- A text that can stand as a token under a delimiter. -/
structure IsToken (delimiter : UInt8) (text : Bytes) : Prop where
  nonempty : text ≠ []
  no_delimiter : delimiter ∉ text
  no_nul : (0 : UInt8) ∉ text

instance (delimiter : UInt8) (text : Bytes) : Decidable (IsToken delimiter text) :=
  decidable_of_iff (text ≠ [] ∧ delimiter ∉ text ∧ (0 : UInt8) ∉ text)
    ⟨fun ⟨nonempty, no_delimiter, no_nul⟩ => ⟨nonempty, no_delimiter, no_nul⟩,
      fun h => ⟨h.nonempty, h.no_delimiter, h.no_nul⟩⟩

theorem effectiveDelimiter_ne_zero (delimiter : UInt8) : effectiveDelimiter delimiter ≠ 0 := by
  rw [effectiveDelimiter]
  split
  · decide
  · assumption

theorem beforeNul_of_not_mem {text : Bytes} (h : (0 : UInt8) ∉ text) : beforeNul text = text := by
  rw [beforeNul, List.takeWhile_eq_self_iff]
  intro b hmem
  exact decide_eq_true (fun e => h (e ▸ hmem))

/-- A text without a delimiter is one run, unless it is empty. -/
theorem runs_of_not_mem {delimiter : UInt8} {text : Bytes} (h : delimiter ∉ text) :
    runs delimiter text = consRun text [] := by
  have scanned := scanRuns_of_not_mem h []
  rw [List.append_nil] at scanned
  rw [runs, scanned]
  show consRun (text ++ []) [] = consRun text []
  rw [List.append_nil]

theorem runs_of_isToken {delimiter : UInt8} {text : Bytes} (h : IsToken delimiter text) :
    runs delimiter text = [text] := by
  rw [runs_of_not_mem h.no_delimiter, consRun, if_neg h.nonempty]

theorem mem_consRun {run text : Bytes} {others : List Bytes} :
    text ∈ consRun run others ↔ (text = run ∧ run ≠ []) ∨ text ∈ others := by
  rw [consRun]
  split
  · next empty => simp [empty]
  · next some => simp [some]

theorem scanRuns_spec (delimiter : UInt8) {text : Bytes} (noNul : (0 : UInt8) ∉ text) :
    (delimiter ∉ (scanRuns delimiter text).1 ∧ (0 : UInt8) ∉ (scanRuns delimiter text).1) ∧
      ∀ run ∈ (scanRuns delimiter text).2, IsToken delimiter run := by
  induction text with
  | nil => simp [scanRuns]
  | cons b text ih =>
    rw [List.mem_cons, not_or] at noNul
    obtain ⟨⟨noDelimiter, noNul'⟩, others⟩ := ih noNul.2
    by_cases same : b = delimiter
    · -- the run that reached up to the delimiter is complete
      subst same
      rw [scanRuns_cons_delimiter]
      refine ⟨⟨List.not_mem_nil, List.not_mem_nil⟩, ?_⟩
      intro run mem
      rcases mem_consRun.mp mem with ⟨rfl, nonempty⟩ | mem
      · exact ⟨nonempty, noDelimiter, noNul'⟩
      · exact others run mem
    · rw [scanRuns_cons same]
      exact ⟨⟨by simp [Ne.symm same, noDelimiter], by simp [noNul.1, noNul']⟩, others⟩

theorem isToken_of_mem_runs {delimiter : UInt8} {text run : Bytes} (noNul : (0 : UInt8) ∉ text)
    (mem : run ∈ runs delimiter text) : IsToken delimiter run := by
  obtain ⟨⟨noDelimiter, noNul'⟩, others⟩ := scanRuns_spec delimiter noNul
  rcases mem_consRun.mp mem with ⟨rfl, nonempty⟩ | mem
  · exact ⟨nonempty, noDelimiter, noNul'⟩
  · exact others run mem

/-- Every token of an expression can stand as one. -/
theorem isToken_of_mem_tokens {delimiter : UInt8} {expr token : Bytes}
    (mem : token ∈ tokens delimiter expr) : IsToken (effectiveDelimiter delimiter) token := by
  refine isToken_of_mem_runs ?_ mem
  intro nul
  have ne := List.mem_takeWhile_imp nul
  exact of_decide_eq_true ne rfl

/-! ## Joined texts -/

/-- A NUL ends an expression only behind what holds none. -/
theorem beforeNul_append {front : Bytes} (noNul : (0 : UInt8) ∉ front) (rest : Bytes) :
    beforeNul (front ++ rest) = front ++ beforeNul rest := by
  rw [beforeNul, beforeNul, List.takeWhile_append_of_pos]
  intro b hmem
  exact decide_eq_true (fun e => noNul (e ▸ hmem))

/-- A delimiter divides the tokens of an expression. -/
theorem tokens_append (delimiter : UInt8) {front : Bytes} (noNul : (0 : UInt8) ∉ front)
    (rest : Bytes) :
    tokens delimiter (front ++ effectiveDelimiter delimiter :: rest) =
      tokens delimiter front ++ tokens delimiter rest := by
  have cut : beforeNul (effectiveDelimiter delimiter :: rest) =
      effectiveDelimiter delimiter :: beforeNul rest :=
    List.takeWhile_cons_of_pos (decide_eq_true (effectiveDelimiter_ne_zero delimiter))
  rw [tokens, beforeNul_append noNul, cut, runs_append, tokens, tokens, beforeNul_of_not_mem noNul]

/-- Texts joined by the delimiter have the runs of each of them, in order. -/
theorem runs_intercalate_flatMap (delimiter : UInt8) (texts : List Bytes) :
    runs delimiter ([delimiter].intercalate texts) = texts.flatMap (runs delimiter) := by
  induction texts with
  | nil => rfl
  | cons text rest ih =>
    cases rest with
    | nil => simp
    | cons next rest =>
      rw [List.intercalate_cons_cons, List.append_assoc, List.singleton_append, runs_append, ih]
      exact List.flatMap_cons.symm

/-- The runs of joined tokens are the tokens. -/
theorem runs_intercalate {delimiter : UInt8} {words : List Bytes}
    (h : ∀ word ∈ words, IsToken delimiter word) :
    runs delimiter ([delimiter].intercalate words) = words := by
  have each : words.flatMap (runs delimiter) = words.flatMap fun word => [word] :=
    List.flatMap_congr fun word mem => runs_of_isToken (h word mem)
  rw [runs_intercalate_flatMap, each, List.flatMap_singleton']

theorem mem_intercalate {separator : Bytes} {words : List Bytes} {b : UInt8}
    (h : b ∈ separator.intercalate words) : b ∈ separator ∨ ∃ word ∈ words, b ∈ word := by
  induction words with
  | nil => cases h
  | cons word rest ih =>
    cases rest with
    | nil =>
      rw [List.intercalate_singleton] at h
      exact Or.inr ⟨word, List.mem_cons_self, h⟩
    | cons next rest =>
      rw [List.intercalate_cons_cons, List.append_assoc] at h
      rcases List.mem_append.1 h with hw | h
      · exact Or.inr ⟨word, List.mem_cons_self, hw⟩
      · rcases List.mem_append.1 h with hs | h
        · exact Or.inl hs
        · rcases ih h with hs | ⟨w, hw, hb⟩
          · exact Or.inl hs
          · exact Or.inr ⟨w, List.mem_cons_of_mem word hw, hb⟩

/-- Tokens joined by the delimiter are read back as they were. -/
theorem tokens_intercalate (delimiter : UInt8) {words : List Bytes}
    (h : ∀ word ∈ words, IsToken (effectiveDelimiter delimiter) word) :
    tokens delimiter ([effectiveDelimiter delimiter].intercalate words) = words := by
  have noNul : (0 : UInt8) ∉ [effectiveDelimiter delimiter].intercalate words := by
    intro hmem
    rcases mem_intercalate hmem with hsep | ⟨word, hword, hmem⟩
    · exact effectiveDelimiter_ne_zero delimiter (List.mem_singleton.mp hsep).symm
    · exact (h word hword).no_nul hmem
  rw [tokens, beforeNul_of_not_mem noNul, runs_intercalate h]

end Rpn
