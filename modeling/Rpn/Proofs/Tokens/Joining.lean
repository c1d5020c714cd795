import Rpn.Proofs.Tokens

/-!
# Tokens joined and split again

* `padded` — tokens joined by delimiters, with more of them than are needed;
* `runs_padded` — the runs of such a text are the tokens;
* `tokenize_joined` — splitting undoes joining, and a delimiter divides the tokens of a text.
-/

namespace Rpn

variable {delimiter : UInt8} {word rest : Bytes} {words : List (Bytes × Nat)}

/-- Words, each with a number of delimiters behind it, and some delimiters in front of all. -/
def padded (delimiter : UInt8) (front : Nat) (words : List (Bytes × Nat)) : Bytes :=
  List.replicate front delimiter ++
    words.flatMap fun word => word.1 ++ List.replicate word.2 delimiter

/-- Delimiters in front of a text do not matter. -/
theorem runs_replicate_append (delimiter : UInt8) (n : Nat) (text : Bytes) :
    runs delimiter (List.replicate n delimiter ++ text) = runs delimiter text := by
  induction n with
  | zero => rfl
  | succ n ih => rw [List.replicate_succ, List.cons_append, runs_cons_delimiter, ih]

/-- A token in front of delimiters, or at the end of the text, is a run of its own. -/
theorem runs_isToken_append (h : IsToken delimiter word) (n : Nat) (apart : 0 < n ∨ rest = []) :
    runs delimiter (word ++ (List.replicate n delimiter ++ rest)) = word :: runs delimiter rest := by
  cases n with
  | zero =>
    obtain rfl := apart.resolve_left (Nat.lt_irrefl 0)
    rw [List.replicate_zero, List.append_nil, List.append_nil, runs_of_isToken h]
    rfl
  | succ n =>
    rw [List.replicate_succ, List.cons_append, runs_append, runs_of_isToken h,
      runs_replicate_append]
    rfl

/-- However many delimiters stand between tokens and around them, the runs are the tokens. -/
theorem runs_padded (front : Nat) (tokens : ∀ word ∈ words, IsToken delimiter word.1)
    (apart : ∀ word ∈ words.dropLast, 0 < word.2) :
    runs delimiter (padded delimiter front words) = words.map Prod.fst := by
  rw [padded, runs_replicate_append]
  induction words with
  | nil => rfl
  | cons first rest ih =>
    rw [List.forall_mem_cons] at tokens
    rw [List.flatMap_cons, List.append_assoc, List.map_cons]
    cases rest with
    | nil => exact runs_isToken_append tokens.1 first.2 (Or.inr rfl)
    | cons next rest =>
      rw [List.dropLast_cons_cons, List.forall_mem_cons] at apart
      rw [runs_isToken_append tokens.1 first.2 (Or.inl apart.1), ih tokens.2 apart.2]

theorem not_mem_padded (front : Nat) (tokens : ∀ word ∈ words, IsToken delimiter word.1)
    (other : delimiter ≠ 0) : (0 : UInt8) ∉ padded delimiter front words := by
  intro mem
  rcases List.mem_append.mp mem with mem | mem
  · exact other (List.eq_of_mem_replicate mem).symm
  · obtain ⟨word, known, mem⟩ := List.mem_flatMap.mp mem
    rcases List.mem_append.mp mem with mem | mem
    · exact (tokens word known).no_nul mem
    · exact other (List.eq_of_mem_replicate mem).symm

/-- **Splitting undoes joining.**  Tokens that are not too many are read back from a text that joins
them by delimiters, one or more between neighbours and any number at the ends.  What a text is split
into is read back when it is joined by single delimiters.  And the tokens of two texts with a
delimiter between them, the first without a NUL, are the tokens of the first and then those of the
second. -/
theorem tokenize_joined (delimiter : UInt8) (limit : Int64) :
    (∀ (front : Nat) (words : List (Bytes × Nat)),
      (∀ word ∈ words, IsToken (effectiveDelimiter delimiter) word.1) →
      (∀ word ∈ words.dropLast, 0 < word.2) → words.length ≤ effectiveTokenLimit limit →
      tokenize delimiter limit (padded (effectiveDelimiter delimiter) front words) =
        .ok (words.map Prod.fst)) ∧
    (∀ (expr : Bytes) (words : List Bytes), tokenize delimiter limit expr = .ok words →
      tokenize delimiter limit ([effectiveDelimiter delimiter].intercalate words) = .ok words) ∧
    ∀ front rest : Bytes, (0 : UInt8) ∉ front →
      (tokenFeed delimiter (front ++ effectiveDelimiter delimiter :: rest)).toList =
        (tokenFeed delimiter front).toList ++ (tokenFeed delimiter rest).toList := by
  refine ⟨?_, ?_, ?_⟩
  · intro front words known apart few
    have noNul := not_mem_padded front known (effectiveDelimiter_ne_zero delimiter)
    have read : tokens delimiter (padded (effectiveDelimiter delimiter) front words) =
        words.map Prod.fst := by
      rw [tokens, beforeNul_of_not_mem noNul, runs_padded front known apart]
    rw [tokenize_eq, read, List.length_map, if_pos few]
  · intro expr words split
    rw [tokenize_eq] at split
    split at split
    · next few =>
      cases split
      have read : tokens delimiter ([effectiveDelimiter delimiter].intercalate
          (tokens delimiter expr)) = tokens delimiter expr :=
        tokens_intercalate delimiter fun _ => isToken_of_mem_tokens
      rw [tokenize_eq, read, if_pos few]
    · cases split
  · intro front rest noNul
    have listed (expr : Bytes) : (tokenFeed delimiter expr).toList = tokens delimiter expr :=
      Feed.Delivers.toList_eq (delivers_tokenFeed delimiter expr)
    rw [listed, listed, listed, tokens_append delimiter noNul]

/-- With room for three, `;;1;eax;;;+` is split into three tokens, as it is when they are joined by
single delimiters; and behind a NUL there is none. -/
theorem tokenize_joined_of_three :
    let words : List (Bytes × Nat) := [(ascii "1", 1), (ascii "eax", 3), (ascii "+", 0)]
    let rest := ascii ";eax" ++ 0 :: ascii ";+"
    (∀ word ∈ words, IsToken 59 word.1) ∧
      padded 59 2 words = ascii ";;1;eax;;;+" ∧
      tokenize 59 3 (padded 59 2 words) = .ok [ascii "1", ascii "eax", ascii "+"] ∧
      tokenize 59 3 (ascii "1;eax;+") = .ok [ascii "1", ascii "eax", ascii "+"] ∧
      (tokenFeed 59 (ascii "1;" ++ 59 :: rest)).toList = [ascii "1", ascii "eax"] := by
  intro words rest
  have known : ∀ word ∈ words, IsToken 59 word.1 := by decide
  obtain ⟨joined, again, divided⟩ := tokenize_joined 59 3
  have split : tokenize 59 3 (padded 59 2 words) = .ok [ascii "1", ascii "eax", ascii "+"] :=
    joined 2 words known (by decide) (by decide)
  exact ⟨known, by decide, split, again _ _ split, divided (ascii "1;") rest (by decide)⟩

end Rpn
