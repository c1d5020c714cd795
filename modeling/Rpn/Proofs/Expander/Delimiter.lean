import Rpn.Constant.Interpreter
import Rpn.Machine
import Rpn.Proofs.Expander.Passes

/-!
# The delimiter of an expanded expression

An expanded expression is read by the delimiter that the expression was written with.  The expander
writes the delimiter as a code point, which is the delimiter itself only below 128.

* `Expander.expandedToken` — the tokens that stand for a token once equates are replaced;
* `Expander.Preserves` — what it is for expansion to keep the tokens of a delimiter apart;
* `Expander.tokens_substitute` — ASCII delimiters keep the tokens apart, whatever the equates;
* `Expander.preserves_iff` — and no others do.
-/

namespace Rpn

/-- An evaluation sees nothing of an expression but its tokens. -/
theorem Machine.eval_of_tokens_eq {m : Machine} {expr expr' : Bytes}
    (same : tokens m.delimiter expr = tokens m.delimiter expr') : m.eval expr = m.eval expr' := by
  simp only [eval, tokenize_eq, same]

namespace Expander

/-- No text of an equate holds a NUL, at which the text would end. -/
def NulFree (equates : Table Bytes Bytes) : Prop :=
  ∀ name text : Bytes, equates[name]? = some text → (0 : UInt8) ∉ text

/-- The tokens that stand for a token once equates are replaced: those in the text of the equate
that it names, or the token itself. -/
def expandedToken (equates : Table Bytes Bytes) (delimiter : UInt8) (token : Bytes) : List Bytes :=
  match equates[token]? with
  | some text => tokens delimiter text
  | none => [token]

/-- Expansion keeps the tokens of a delimiter apart: an expression without quoted characters and
constant expressions expands to a text that has the tokens which stand for those of the expression,
in order; and where none of these names an equate, evaluating the text is evaluating the
expression. -/
def Preserves [Constant.Language] (delimiter : UInt8) : Prop :=
  ∀ (ex : Expander) (expr : Bytes), NulFree ex.table → 39 ∉ expr → ¬ [36, 40] <:+: expr →
    ∃ out, (ex.expand delimiter expr).2 = .ok out ∧
      tokens delimiter out = (tokens delimiter expr).flatMap (expandedToken ex.table delimiter) ∧
      ((∀ token ∈ tokens delimiter expr, token ∉ ex.table) →
        ∀ m : Machine, m.delimiter = delimiter → m.eval out = m.eval expr)

variable {equates : Table Bytes Bytes} {delimiter : UInt8} {expr : Bytes}

theorem flatMap_expandedToken_of_not_mem {words : List Bytes}
    (free : ∀ token ∈ words, token ∉ equates) :
    words.flatMap (expandedToken equates delimiter) = words := by
  have each : words.flatMap (expandedToken equates delimiter) = words.flatMap fun word => [word] := by
    refine List.flatMap_congr fun token mem => ?_
    have absent : equates[token]? = none := Std.ExtTreeMap.getElem?_eq_none (free token mem)
    rw [expandedToken, absent]
  rw [each, List.flatMap_singleton']

theorem encode_delimiter (small : effectiveDelimiter delimiter < 128) :
    Utf8.encode (effectiveDelimiter delimiter).toNat = [effectiveDelimiter delimiter] := by
  have bound : (effectiveDelimiter delimiter).toNat < 128 := small
  rw [Utf8.encode, if_pos bound]
  simp

/-- What becomes of a token of an expression has the tokens that stand for it, and no NUL. -/
theorem NulFree.replacement_spec (nulFree : NulFree equates) {token : Bytes}
    (mem : token ∈ tokens delimiter expr) :
    runs (effectiveDelimiter delimiter) (replacement equates token) =
        expandedToken equates delimiter token ∧
      0 ∉ replacement equates token := by
  rw [replacement, expandedToken]
  cases found : equates[token]? with
  | none =>
    have alone := isToken_of_mem_tokens mem
    exact ⟨runs_of_isToken alone, alone.no_nul⟩
  | some text =>
    have clear := nulFree token text found
    refine ⟨?_, clear⟩
    simp only [tokens, beforeNul_of_not_mem clear, Option.getD_some]

/-- An ASCII delimiter joins what becomes of the tokens. -/
theorem substitute_of_lt (small : effectiveDelimiter delimiter < 128) (expr : Bytes) :
    substitute equates delimiter expr =
      [effectiveDelimiter delimiter].intercalate
        ((tokens delimiter expr).map (replacement equates)) := by
  rw [substitute, encode_delimiter small]

theorem NulFree.not_mem_substitute (nulFree : NulFree equates)
    (small : effectiveDelimiter delimiter < 128) (expr : Bytes) :
    0 ∉ substitute equates delimiter expr := by
  intro nul
  rw [substitute_of_lt small] at nul
  rcases mem_intercalate nul with nul | ⟨word, within, nul⟩
  · exact effectiveDelimiter_ne_zero delimiter (List.mem_singleton.mp nul).symm
  · obtain ⟨token, mem, rfl⟩ := List.mem_map.mp within
    exact (nulFree.replacement_spec mem).2 nul

/-- Under an ASCII delimiter the tokens of an expression are replaced one by one. -/
theorem tokens_substitute (small : effectiveDelimiter delimiter < 128) (nulFree : NulFree equates)
    (expr : Bytes) :
    tokens delimiter (substitute equates delimiter expr) =
      (tokens delimiter expr).flatMap (expandedToken equates delimiter) := by
  have each : (tokens delimiter expr).flatMap
        (fun token => runs (effectiveDelimiter delimiter) (replacement equates token)) =
      (tokens delimiter expr).flatMap (expandedToken equates delimiter) :=
    List.flatMap_congr fun token mem => (nulFree.replacement_spec mem).1
  rw [tokens, beforeNul_of_not_mem (nulFree.not_mem_substitute small expr), substitute_of_lt small,
    runs_intercalate_flatMap, List.flatMap_map, each]

/-- From 128 on a delimiter divides two letters, and its code point does not. -/
theorem tokens_letters {delimiter : UInt8} (large : 128 ≤ delimiter) :
    tokens delimiter [97, delimiter, 98] = [[97], [98]] ∧
      tokens delimiter ([97] ++ Utf8.encode delimiter.toNat ++ [98]) ≠ [[97], [98]] := by
  have all : ∀ n : Fin 256, 128 ≤ n.val →
      tokens n.val.toUInt8 [97, n.val.toUInt8, 98] = [[97], [98]] ∧
        tokens n.val.toUInt8 ([97] ++ Utf8.encode n.val ++ [98]) ≠ [[97], [98]] := by
    decide +kernel
  have found := all ⟨delimiter.toNat, delimiter.toNat_lt⟩ large
  simpa using found

section Language

variable [Constant.Language]

/-! ## ASCII delimiters -/

theorem preserves_of_lt (small : effectiveDelimiter delimiter < 128) : Preserves delimiter := by
  intro ex expr nulFree noQuote noConstant
  have kept := tokens_substitute small nulFree expr
  refine ⟨_, expandWith_of_plain noQuote noConstant delimiter, kept, ?_⟩
  rintro free m rfl
  rw [flatMap_expandedToken_of_not_mem free] at kept
  exact Machine.eval_of_tokens_eq kept

/-! ## Other delimiters -/

/-- Two letters with such a delimiter between them are expanded to a text with other tokens. -/
theorem not_preserves_of_le {delimiter : UInt8} (large : 128 ≤ delimiter) :
    ¬ Preserves delimiter := by
  intro preserves
  have effective : effectiveDelimiter delimiter = delimiter := by
    refine if_neg ?_
    rintro rfl
    exact absurd large (by decide)
  have ascii : ∀ b : UInt8, b < 128 → b ≠ delimiter := by
    rintro b small rfl
    exact absurd small (UInt8.not_lt.mpr large)
  have noQuote : 39 ∉ [97, delimiter, 98] := by
    simp [ascii 39 (by decide)]
  have noConstant : ¬ [36, 40] <:+: [97, delimiter, 98] := by
    intro inside
    have dollar : (36 : UInt8) ∈ [97, delimiter, 98] := inside.mem (by simp)
    simp [ascii 36 (by decide)] at dollar
  have nulFree : NulFree ({} : Expander).table := by
    intro name text found
    cases found
  have unnamed : ∀ token ∈ tokens delimiter [97, delimiter, 98], token ∉ ({} : Expander).table :=
    fun token _ => Std.ExtTreeMap.not_mem_empty
  obtain ⟨divided, undivided⟩ := tokens_letters large
  obtain ⟨out, expanded, kept, -⟩ := preserves {} _ nulFree noQuote noConstant
  have out_eq : out = [97] ++ Utf8.encode delimiter.toNat ++ [98] := by
    have plain : (({} : Expander).expand delimiter [97, delimiter, 98]).2 = _ :=
      expandWith_of_plain noQuote noConstant delimiter
    rw [plain] at expanded
    rw [← Except.ok.inj expanded, substitute, divided, effective]
    rfl
  rw [flatMap_expandedToken_of_not_mem unnamed, divided, out_eq] at kept
  exact undivided kept

/-- **Expansion preserves the delimiters below 128, and no others.**  The delimiter 0 stands for the
comma. -/
theorem preserves_iff (delimiter : UInt8) :
    Preserves delimiter ↔ effectiveDelimiter delimiter < 128 := by
  constructor
  · intro preserves
    by_cases zero : delimiter = 0
    · rw [zero]
      decide
    · have effective : effectiveDelimiter delimiter = delimiter := if_neg zero
      rw [effective, ← UInt8.not_le]
      exact fun large => not_preserves_of_le large preserves
  · exact preserves_of_lt

end Language

attribute [local instance] Constant.interpreter

/-- The sum of 1 and 2, written with the delimiter 128, is 3; but its expansion is written with the
bytes 194 and 128, of which the first becomes part of the token in front. -/
theorem not_preserves_of_sum :
    let expr : Bytes := [49, 128, 50, 128, 43]
    let out : Bytes := [49, 194, 128, 50, 194, 128, 43]
    let m : Machine := { Machine.ofDepth 4 with delimiter := 128 }
    ¬ Preserves 128 ∧
      (({} : Expander).expand 128 expr).2 = .ok out ∧
      tokens 128 expr = [[49], [50], [43]] ∧ tokens 128 out = [[49, 194], [50, 194], [43]] ∧
      (m.eval expr).2 = .ok 3 ∧
      (m.eval out).2 = .error (.atToken 0 [49, 194] (.unknownSymbol [49, 194])) := by
  intro expr out m
  have expanded : (({} : Expander).expand 128 expr).2 = .ok out := by decide
  have divided : tokens 128 expr = [[49], [50], [43]] := by decide
  have redivided : tokens 128 out = [[49, 194], [50, 194], [43]] := by decide
  refine ⟨?_, expanded, divided, redivided, by decide, by decide⟩
  intro preserves
  obtain ⟨out', expanded', -, same⟩ := preserves {} expr
    (fun name text found => by cases found) (by decide) (by decide)
  obtain rfl : out = out' := Except.ok.inj (expanded.symm.trans expanded')
  have evaluated := same (fun token _ => Std.ExtTreeMap.not_mem_empty) m rfl
  have differ : (m.eval out).2 ≠ (m.eval expr).2 := by decide
  exact differ (congrArg Prod.snd evaluated)

end Expander

end Rpn
