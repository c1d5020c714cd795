import Rpn.Constant.Interpreter
import Rpn.Proofs.Expander.Matches
import Rpn.Proofs.Literal

/-!
# Nested brackets in constant expressions

The pattern of constant expressions knows brackets inside of brackets, and none inside of those.
A text in which brackets are nested deeper is balanced as well, but it stays where it is.

* `Expander.Balanced` — texts with balanced brackets, nested to any depth, and
  `Balanced.append_inj`, that the bracket which closes one is determined;
* `Expander.constantMatch?_eq_none` — brackets that are nested too deep are not recognized;
* `Expander.Folds` — what it is for a constant expression to be folded;
* `Expander.folding_nested` — it is, exactly if brackets are nested once at most.
-/

namespace Rpn.Expander

variable {text inside rest rest' : Bytes}

/-! ## Balanced brackets -/

/-- Texts with balanced brackets. -/
inductive Balanced : Bytes → Prop
  | nil : Balanced []
  | byte {b : UInt8} {rest : Bytes} : b ≠ 40 → b ≠ 41 → Balanced rest → Balanced (b :: rest)
  | group {group rest : Bytes} :
      Balanced group → Balanced rest → Balanced (40 :: (group ++ 41 :: rest))

theorem balanced_of_not_mem (opening : 40 ∉ text) (closing : 41 ∉ text) : Balanced text := by
  induction text with
  | nil => exact .nil
  | cons b rest ih =>
    rw [List.mem_cons, not_or] at opening closing
    exact .byte (Ne.symm opening.1) (Ne.symm closing.1) (ih opening.2 closing.2)

theorem Inside.balanced (h : Inside inside) : Balanced inside := by
  induction h with
  | nil => exact .nil
  | byte opening closing _ ih => exact .byte opening closing ih
  | group opening closing _ ih => exact .group (balanced_of_not_mem opening closing) ih

/-- The bracket that closes a balanced text is determined. -/
theorem Balanced.append_inj (h : Balanced text) (h' : Balanced inside)
    (same : text ++ 41 :: rest = inside ++ 41 :: rest') : text = inside ∧ rest = rest' := by
  induction h generalizing inside rest rest' with
  | nil =>
    cases h' with
    | nil => exact ⟨rfl, (List.cons.inj same).2⟩
    | byte _ closing _ => exact absurd (List.cons.inj same).1.symm closing
    | group _ _ => exact absurd (List.cons.inj same).1 (by decide)
  | byte opening closing _ ih =>
    cases h' with
    | nil => exact absurd (List.cons.inj same).1 closing
    | byte _ _ other =>
      obtain ⟨rfl, tails⟩ := List.cons.inj same
      obtain ⟨rfl, rfl⟩ := ih other tails
      exact ⟨rfl, rfl⟩
    | group _ _ => exact absurd (List.cons.inj same).1 opening
  | group _ _ ihGroup ih =>
    cases h' with
    | nil => exact absurd (List.cons.inj same).1 (by decide)
    | byte opening _ _ => exact absurd (List.cons.inj same).1.symm opening
    | group first second =>
      -- the groups end at the same bracket, and so do the texts behind them
      obtain ⟨rfl, behind⟩ := ihGroup first (by simpa using same)
      obtain ⟨rfl, rfl⟩ := ih second behind
      exact ⟨rfl, rfl⟩

/-! ## The pattern -/

/-- Where brackets are balanced but nested too deep, no constant expression is recognized. -/
theorem constantMatch?_eq_none (balanced : Balanced inside) (deep : ¬ Inside inside) :
    constantMatch? (constantText inside) = none := by
  rw [constantMatch?_recognizes.eq_none_iff]
  rintro _ ⟨rest, same⟩ ⟨found, isInside, rfl⟩
  have same : found ++ 41 :: rest = inside ++ 41 :: [] := by
    simpa [constantText] using same
  obtain ⟨rfl, -⟩ := isInside.balanced.append_inj balanced same
  exact deep isInside

variable {equates : Table Bytes Bytes}

theorem not_mem_constantText (noQuote : 39 ∉ inside) : 39 ∉ constantText inside := by
  simp [constantText, noQuote]

/-- A text that is a single token and names no equate is left alone. -/
theorem substitute_of_isToken {token : Bytes} (isToken : IsToken 44 token)
    (free : equates[token]? = none) : substitute equates 44 token = token := by
  have single : tokens 44 token = [token] := by
    show runs 44 (beforeNul token) = [token]
    rw [beforeNul_of_not_mem isToken.no_nul, runs_of_isToken isToken]
  rw [substitute, single, List.map_singleton, List.intercalate_singleton, replacement, free,
    Option.getD_none]

/-- Behind a `$(` that stays, the text goes on with a token that begins with it. -/
theorem head?_substitute_of_deep (free : ∀ name : Bytes, [36, 40] <+: name → equates[name]? = none)
    (rest : Bytes) : (substitute equates 44 (36 :: 40 :: rest)).head? = some 36 := by
  obtain ⟨token, others, split⟩ : ∃ token others,
      tokens 44 (36 :: 40 :: rest) = (36 :: 40 :: token) :: others := by
    refine ⟨(scanRuns 44 (beforeNul rest)).1, (scanRuns 44 (beforeNul rest)).2, ?_⟩
    have cut : beforeNul (36 :: 40 :: rest) = 36 :: 40 :: beforeNul rest := rfl
    show runs 44 (beforeNul (36 :: 40 :: rest)) = _
    rw [cut, runs, scanRuns_cons (by decide), scanRuns_cons (by decide), consRun,
      if_neg (List.cons_ne_nil 36 _)]
  have kept : replacement equates (36 :: 40 :: token) = 36 :: 40 :: token := by
    rw [replacement, free (36 :: 40 :: token) ⟨token, rfl⟩, Option.getD_none]
  rw [substitute, split, List.map_cons, kept]
  cases others with
  | nil => simp
  | cons next others => simp [List.intercalate_cons_cons]

/-- The inside of a constant expression in a text is shorter than the text by three bytes. -/
theorem length_le_of_mem_insides
    (mem : inside ∈ (pieces constantMatch? text).filterMap Piece.inside?) :
    inside.length ≤ text.length - 3 := by
  obtain ⟨piece, known, found⟩ := List.mem_filterMap.mp mem
  cases piece with
  | byte b => cases found
  | hit hit =>
    obtain rfl := Option.some.inj found
    obtain ⟨before, after, split⟩ := List.append_of_mem known
    have whole := flatten_pieces constantMatch? (fun _ _ => constantMatch?_recognizes.pos) text
    rw [split, List.flatMap_append, List.flatMap_cons] at whole
    have length := congrArg List.length whole
    simp only [List.length_append, Piece.text, List.length_dropLast, List.length_drop] at length ⊢
    omega

section Language

variable [Constant.Language]

/-- What stands behind such a `$(` is looked at by itself. -/
theorem foldConstants_of_deep (balanced : Balanced inside) (deep : ¬ Inside inside) :
    foldConstants equates (constantText inside) =
      (foldConstants equates (inside ++ [41])).map (36 :: 40 :: ·) := by
  have first := constantMatch?_eq_none balanced deep
  have second : constantMatch? (40 :: (inside ++ [41])) = none :=
    constantMatch?_of_ne (by decide) _
  rw [constantText] at first
  rw [constantText, foldConstants, pieces_cons first, pieces_cons second]
  exact mapM_foldPiece_bytes [36, 40] _

/-- A recognized constant expression becomes its value. -/
theorem foldConstants_of_inside (isInside : Inside inside) :
    foldConstants equates (constantText inside) =
      (evaluate equates inside).map fun v => decimal v.toInt := by
  have matched := constantMatch?_recognizes.found ⟨inside, isInside, rfl⟩ []
  have hit : pieces constantMatch? (constantText inside ++ []) = [.hit (constantText inside)] :=
    pieces_hit (List.cons_ne_nil 36 _) [] matched
  rw [List.append_nil] at hit
  rw [foldConstants, hit, List.mapM_cons, foldPiece, dropLast_constantText]
  cases evaluate equates inside with
  | error e => rfl
  | ok value =>
    show Except.ok [decimal value.toInt].flatten = _
    rw [List.flatten_singleton]
    rfl

/-! ## Expansion -/

/-- A constant expression with this inside is folded: its expansion is the number that it is evaluated
to, or an error that wraps the one which names the inside. -/
def Folds (ex : Expander) (inside : Bytes) : Prop :=
  (∃ e, (ex.expand 44 (constantText inside)).2 = .error e ∧
    Error.is (.notExpression inside) e = true) ∨
  ∃ v, evaluate ex.table inside = .ok v ∧
    (ex.expand 44 (constantText inside)).2 = .ok (decimal v.toInt)

theorem is_notExpression_of_evaluate {e : Error} (failed : evaluate equates text = .error e) :
    Error.is (.notExpression inside) e = decide (text = inside) := by
  rcases evaluate_error failed with rfl | ⟨failure, rfl⟩ <;>
    simp [Error.is, Error.same, Error.isEventless]

/-- A constant expression whose brackets are nested once at most expands to its value. -/
theorem expandWith_of_inside (noQuote : 39 ∉ inside)
    (numerals : ∀ v : Int32, equates[decimal v.toInt]? = none) (isInside : Inside inside) :
    expandWith equates 44 (constantText inside) =
      (evaluate equates inside).map fun v => decimal v.toInt := by
  rw [expandWith, resolveQuotes_of_not_mem (not_mem_constantText noQuote),
    foldConstants_of_inside isInside]
  cases evaluate equates inside with
  | error e => rfl
  | ok v =>
    show Except.ok (substitute equates 44 (decimal v.toInt)) = .ok (decimal v.toInt)
    rw [substitute_of_isToken (Literal.isToken_of_parse? (Literal.parse?_decimal v)) (numerals v)]

/-- A constant expression whose brackets are nested deeper is not folded. -/
theorem not_folds_of_deep {ex : Expander} (noQuote : 39 ∉ inside) (balanced : Balanced inside)
    (deep : ¬ Inside inside) (free : ∀ name : Bytes, [36, 40] <+: name → ex.table[name]? = none) :
    ¬ Folds ex inside := by
  have expanded : (ex.expand 44 (constantText inside)).2 =
      ((foldConstants ex.table (inside ++ [41])).map (36 :: 40 :: ·)).map
        (substitute ex.table 44) := by
    show expandWith ex.table 44 (constantText inside) = _
    rw [expandWith, resolveQuotes_of_not_mem (not_mem_constantText noQuote),
      foldConstants_of_deep balanced deep]
  rw [Folds, expanded]
  cases folding : foldConstants ex.table (inside ++ [41]) with
  | ok folded =>
    rintro (⟨e, impossible, -⟩ | ⟨v, -, answered⟩)
    · cases impossible
    · have head := head?_substitute_of_deep free folded
      have same : substitute ex.table 44 (36 :: 40 :: folded) = decimal v.toInt :=
        Except.ok.inj answered
      rw [same] at head
      exact Literal.not_mem_decimal (by decide) (by decide) _ (List.mem_of_mem_head? head)
  | error e =>
    rintro (⟨e', failed, names⟩ | ⟨v, -, impossible⟩)
    · -- the error names an inside in the text behind, which is shorter
      obtain rfl : e = e' := Except.error.inj failed
      obtain ⟨shorter, mem, cause⟩ := exists_of_foldConstants_error folding
      rw [is_notExpression_of_evaluate cause, decide_eq_true_iff] at names
      subst names
      have bound := length_le_of_mem_insides mem
      have some : 0 < shorter.length := by
        rw [List.length_pos_iff]
        rintro rfl
        exact deep .nil
      rw [List.length_append, List.length_singleton] at bound
      omega
    · cases impossible

/-- **A constant expression is folded exactly if its brackets are nested once at most.**  Let brackets
be balanced in the inside, which holds no quote, and let no number in base ten be the name of an
equate.  If the brackets are nested once at most, the expansion is the number that the inside is
evaluated to, or fails and names the inside.  If they are nested deeper, `$(` stays and the text
behind it is looked at by itself; so the constant expression is not folded, unless a name of an equate
begins with `$(`. -/
theorem folding_nested (ex : Expander) (inside : Bytes) (noQuote : 39 ∉ inside)
    (balanced : Balanced inside) (numerals : ∀ v : Int32, ex.table[decimal v.toInt]? = none) :
    (Inside inside → Folds ex inside) ∧
    (¬ Inside inside →
      foldConstants ex.table (constantText inside) =
        (foldConstants ex.table (inside ++ [41])).map (36 :: 40 :: ·) ∧
      ((∀ name : Bytes, [36, 40] <+: name → ex.table[name]? = none) → ¬ Folds ex inside)) := by
  constructor
  · intro isInside
    have expanded : (ex.expand 44 (constantText inside)).2 =
        (evaluate ex.table inside).map fun v => decimal v.toInt :=
      expandWith_of_inside noQuote numerals isInside
    rw [Folds, expanded]
    cases evaluated : evaluate ex.table inside with
    | error e =>
      refine Or.inl ⟨e, rfl, ?_⟩
      rw [is_notExpression_of_evaluate evaluated, decide_eq_true rfl]
    | ok v => exact Or.inr ⟨v, rfl, rfl⟩
  · intro deep
    exact ⟨foldConstants_of_deep balanced deep, not_folds_of_deep noQuote balanced deep⟩

end Language

attribute [local instance] Constant.interpreter

/-- Two groups in brackets, one behind the other, do not hinder the folding of their product. -/
theorem folding_nested_of_product :
    let ex : Expander := Expander.equate {} (ascii "N") (ascii "4")
    Balanced (ascii "(N+1)*(2)") ∧ Folds ex (ascii "(N+1)*(2)") := by
  intro ex
  have inside : Inside (ascii "(N+1)*(2)") :=
    @Inside.group (ascii "N+1") (ascii "*(2)") (by decide) (by decide)
      (.byte (by decide) (by decide)
        (@Inside.group (ascii "2") [] (by decide) (by decide) .nil))
  have numerals : ∀ v : Int32, ex.table[decimal v.toInt]? = none := by
    intro v
    have other : ascii "N" ≠ decimal v.toInt := by
      intro same
      have mem : (78 : UInt8) ∈ decimal v.toInt := by
        rw [← same]
        decide
      exact Literal.not_mem_decimal (by decide) (by decide) _ mem
    show ((∅ : Table Bytes Bytes).insert (ascii "N") (ascii "4"))[decimal v.toInt]? = none
    rw [Table.getElem?_put, if_neg other]
    simp
  have balanced := inside.balanced
  exact ⟨balanced, (folding_nested ex _ (by decide) balanced numerals).1 inside⟩

/-- Brackets nested twice are not folded, though there is a value. -/
theorem not_folds_of_double_brackets :
    let ex : Expander := {}
    39 ∉ ascii "((1))" ∧ Balanced (ascii "((1))") ∧
      (∀ v : Int32, ex.table[decimal v.toInt]? = none) ∧
      evaluate ex.table (ascii "((1))") = .ok 1 ∧
      (ex.expand 44 (constantText (ascii "((1))"))).2 = .ok (ascii "$(((1)))") ∧
      ¬ Folds ex (ascii "((1))") := by
  intro ex
  have balanced : Balanced (ascii "((1))") :=
    @Balanced.group (ascii "(1)") []
      (@Balanced.group (ascii "1") [] (balanced_of_not_mem (by decide) (by decide)) .nil) .nil
  have value : evaluate ex.table (ascii "((1))") = .ok 1 := by decide +kernel
  have answer : (ex.expand 44 (constantText (ascii "((1))"))).2 = .ok (ascii "$(((1)))") := by
    decide +kernel
  refine ⟨by decide, balanced, fun v => by simp [ex, table], value, answer, ?_⟩
  rintro (⟨e, failed, -⟩ | ⟨v, -, number⟩)
  · rw [answer] at failed
    cases failed
  · rw [answer] at number
    refine Literal.not_mem_decimal (b := 36) (by decide) (by decide) v.toInt ?_
    rw [← Except.ok.inj number]
    decide

end Rpn.Expander
