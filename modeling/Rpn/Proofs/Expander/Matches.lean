import Rpn.Constant.Interpreter
import Rpn.Proofs.Expander.Passes

/-!
# Leftmost matches

What a scan from the left finds, told without scanning.

* `Expander.Divided` — a text divided into its leftmost matches and the bytes between them;
* `Expander.Recognizes` — what a pattern must tell for a scan to find the matches, and
  `Recognizes.divided_iff`, that it then finds the only such division;
* `Expander.Inside` and `Expander.IsConstant` — the texts of constant expressions;
* `Expander.constantMatch?_recognizes` — their pattern;
* `Expander.expand_leftmost` — when an expression does not expand, and what that depends on.
-/

namespace Rpn.Expander

variable {text inside rest hit : Bytes} {b : UInt8}

/-! ## Division from the left -/

/-- A text divided from the left: where a match begins at the place that is reached, it is a part,
and otherwise the byte there is one. -/
inductive Divided (Match : Bytes → Prop) : Bytes → List Piece → Prop
  | nil : Divided Match [] []
  | byte {b : UInt8} {rest : Bytes} {parts : List Piece} :
      (∀ hit, hit <+: b :: rest → ¬ Match hit) → Divided Match rest parts →
      Divided Match (b :: rest) (.byte b :: parts)
  | hit {hit rest : Bytes} {parts : List Piece} :
      Match hit → Divided Match rest parts → Divided Match (hit ++ rest) (.hit hit :: parts)

/-- A pattern that tells the length of the only match at the head of a text, if there is one. -/
structure Recognizes (pattern : Bytes → Option Nat) (Match : Bytes → Prop) : Prop where
  ne_nil : ∀ {hit}, Match hit → hit ≠ []
  found : ∀ {hit}, Match hit → ∀ rest, pattern (hit ++ rest) = some hit.length
  sound : ∀ {text n}, pattern text = some n →
    ∃ hit rest, text = hit ++ rest ∧ Match hit ∧ hit.length = n

namespace Recognizes

variable {pattern : Bytes → Option Nat} {Match : Bytes → Prop} {parts : List Piece}

/-- At most one match begins at a place. -/
theorem unique (h : Recognizes pattern Match) {hit' rest' : Bytes} (first : Match hit)
    (second : Match hit') (same : hit ++ rest = hit' ++ rest') : hit = hit' := by
  have length : hit.length = hit'.length := by
    have found := h.found first rest
    rw [same, h.found second rest'] at found
    exact (Option.some.inj found).symm
  exact List.append_inj_left same length

theorem pos (h : Recognizes pattern Match) {n : Nat} (found : pattern text = some n) : 0 < n := by
  obtain ⟨hit, rest, -, isMatch, rfl⟩ := h.sound found
  exact List.length_pos_iff.mpr (h.ne_nil isMatch)

theorem eq_none_iff (h : Recognizes pattern Match) :
    pattern text = none ↔ ∀ hit, hit <+: text → ¬ Match hit := by
  constructor
  · rintro none hit ⟨rest, rfl⟩ isMatch
    rw [h.found isMatch] at none
    cases none
  · intro noMatch
    cases found : pattern text with
    | none => rfl
    | some n =>
      obtain ⟨hit, rest, rfl, isMatch, -⟩ := h.sound found
      exact absurd isMatch (noMatch hit (List.prefix_append hit rest))

/-- A scan that takes the match at every place that it reaches, and goes on behind it, divides the
text from the left; and no other division does. -/
theorem divided_iff (h : Recognizes pattern Match) :
    Divided Match text parts ↔ parts = pieces pattern text := by
  constructor
  · intro divided
    induction divided with
    | nil => rfl
    | byte noMatch _ ih => rw [ih, pieces_cons (h.eq_none_iff.mpr noMatch)]
    | hit isMatch _ ih => rw [ih, pieces_hit (h.ne_nil isMatch) _ (h.found isMatch _)]
  · rintro rfl
    induction size : text.length using Nat.strongRecOn generalizing text with
    | _ size ih =>
      subst size
      cases text with
      | nil => exact .nil
      | cons b rest =>
        cases found : pattern (b :: rest) with
        | none =>
          rw [pieces_cons found]
          exact .byte (h.eq_none_iff.mp found) (ih rest.length (Nat.lt_succ_self _) rfl)
        | some n =>
          obtain ⟨hit, more, eq, isMatch, rfl⟩ := h.sound found
          have ne := h.ne_nil isMatch
          have shorter : more.length < (b :: rest).length := by
            have pos := List.length_pos_iff.mpr ne
            rw [eq, List.length_append]
            omega
          rw [eq, pieces_hit ne more (h.found isMatch more)]
          exact .hit isMatch (ih more.length shorter rfl)

end Recognizes

/-! ## Constant expressions -/

/-- What may stand inside a constant expression: bytes other than brackets, and groups of such bytes
in brackets. -/
inductive Inside : Bytes → Prop
  | nil : Inside []
  | byte {b : UInt8} {rest : Bytes} : b ≠ 40 → b ≠ 41 → Inside rest → Inside (b :: rest)
  | group {group rest : Bytes} :
      40 ∉ group → 41 ∉ group → Inside rest → Inside (40 :: (group ++ 41 :: rest))

/-- A text as the inside of a constant expression. -/
def constantText (inside : Bytes) : Bytes :=
  36 :: 40 :: (inside ++ [41])

/-- The text of a constant expression. -/
def IsConstant (text : Bytes) : Prop :=
  ∃ inside, Inside inside ∧ text = constantText inside

theorem dropLast_constantText (inside : Bytes) :
    ((constantText inside).drop 2).dropLast = inside := by
  simp [constantText]

theorem closing?_cons_byte (open' : b ≠ 40) (close : b ≠ 41) (inGroup : Bool) (count : Nat)
    (rest : Bytes) : closing? inGroup count (b :: rest) = closing? inGroup (count + 1) rest := by
  rw [closing?, if_neg close, if_neg open']

/-- An open group is closed by the next closing bracket. -/
theorem closing?_group {group : Bytes} (noOpening : 40 ∉ group) (noClosing : 41 ∉ group)
    (count : Nat) (rest : Bytes) :
    closing? true count (group ++ 41 :: rest) = closing? false (count + group.length + 1) rest := by
  induction group generalizing count with
  | nil => rfl
  | cons b group ih =>
    rw [List.mem_cons, not_or] at noOpening noClosing
    rw [List.cons_append, closing?_cons_byte (Ne.symm noOpening.1) (Ne.symm noClosing.1),
      ih noOpening.2 noClosing.2, List.length_cons]
    congr 1
    omega

/-- The bracket behind an inside closes the constant expression. -/
theorem Inside.closing?_eq (h : Inside inside) (count : Nat) (rest : Bytes) :
    closing? false count (inside ++ 41 :: rest) = some (count + inside.length + 1) := by
  induction h generalizing count with
  | nil => rfl
  | byte opening closing _ ih =>
    rw [List.cons_append, closing?_cons_byte opening closing, ih, List.length_cons]
    congr 1
    omega
  | @group group inside noOpening noClosing _ ih =>
    have opened : closing? false count (40 :: (group ++ 41 :: inside) ++ 41 :: rest) =
        closing? true (count + 1) (group ++ 41 :: (inside ++ 41 :: rest)) := by
      rw [List.cons_append, List.append_assoc]
      rfl
    rw [opened, closing?_group noOpening noClosing, ih]
    congr 1
    simp only [List.length_cons, List.length_append]
    omega

/-- A group stays one with a byte more. -/
theorem Inside.group_cons (h : Inside (40 :: inside)) (opening : b ≠ 40) (closing : b ≠ 41) :
    Inside (40 :: b :: inside) := by
  cases h with
  | byte impossible _ _ => exact absurd rfl impossible
  | @group group rest noOpening noClosing isInside =>
    refine @Inside.group (b :: group) rest ?_ ?_ isInside
    · rw [List.mem_cons, not_or]
      exact ⟨Ne.symm opening, noOpening⟩
    · rw [List.mem_cons, not_or]
      exact ⟨Ne.symm closing, noClosing⟩

/-- Where a closing bracket is found, an inside stands in front of it, or the rest of one whose first
group is open. -/
theorem exists_of_closing? {inGroup : Bool} {count n : Nat}
    (found : closing? inGroup count text = some n) :
    ∃ inside rest, text = inside ++ 41 :: rest ∧ n = count + inside.length + 1 ∧
      if inGroup then Inside (40 :: inside) else Inside inside := by
  induction text generalizing inGroup count with
  | nil => cases found
  | cons b text ih =>
    rw [closing?] at found
    by_cases closed : b = 41
    · subst closed
      rw [if_pos rfl] at found
      cases inGroup with
      | false =>
        obtain rfl := Option.some.inj found
        exact ⟨[], text, rfl, rfl, .nil⟩
      | true =>
        obtain ⟨inside, rest, rfl, rfl, isInside⟩ := ih found
        refine ⟨41 :: inside, rest, rfl, ?_, ?_⟩
        · rw [List.length_cons]
          omega
        · exact @Inside.group [] inside List.not_mem_nil List.not_mem_nil isInside
    · rw [if_neg closed] at found
      by_cases opened : b = 40
      · subst opened
        rw [if_pos rfl] at found
        cases inGroup with
        | true => cases found
        | false =>
          obtain ⟨inside, rest, rfl, rfl, isInside⟩ := ih found
          refine ⟨40 :: inside, rest, rfl, ?_, isInside⟩
          rw [List.length_cons]
          omega
      · rw [if_neg opened] at found
        obtain ⟨inside, rest, rfl, rfl, isInside⟩ := ih found
        refine ⟨b :: inside, rest, rfl, ?_, ?_⟩
        · rw [List.length_cons]
          omega
        · cases inGroup with
          | false => exact .byte opened closed isInside
          | true => exact isInside.group_cons opened closed

theorem constantMatch?_recognizes : Recognizes constantMatch? IsConstant where
  ne_nil := by
    rintro _ ⟨inside, -, rfl⟩
    exact List.cons_ne_nil 36 _
  found := by
    rintro _ ⟨inside, isInside, rfl⟩ rest
    have text : constantText inside ++ rest = 36 :: 40 :: (inside ++ 41 :: rest) := by
      simp [constantText]
    rw [text, constantMatch?, if_pos (by decide), isInside.closing?_eq]
    simp only [constantText, List.length_cons, List.length_append, List.length_nil,
      Option.some.injEq]
    omega
  sound := by
    intro text n found
    obtain _ | ⟨a, _ | ⟨b, rest⟩⟩ := text
    · cases found
    · cases found
    · rw [constantMatch?] at found
      split at found
      · next opened =>
        simp only [Bool.and_eq_true, decide_eq_true_eq] at opened
        obtain ⟨rfl, rfl⟩ := opened
        obtain ⟨inside, rest, rfl, rfl, isInside⟩ := exists_of_closing? found
        refine ⟨constantText inside, rest, by simp [constantText], ⟨inside, isInside, rfl⟩, ?_⟩
        simp only [constantText, List.length_cons, List.length_append, List.length_nil]
        omega
      · cases found

/-! ## Expressions that do not expand -/

/-- The inside of the constant expression that a part of a text is, if it is one. -/
def Piece.inside? : Piece → Option Bytes
  | .byte _ => none
  | .hit text => some ((text.drop 2).dropLast)

section Failures

variable [Constant.Language] {equates : Table Bytes Bytes} {delimiter : UInt8} {expr : Bytes}
  {parts : List Piece} {e : Error}

/-- The parts of a text fail to be folded as its constant expressions fail to be evaluated. -/
theorem mapM_foldPiece_error_iff :
    parts.mapM (foldPiece equates) = .error e ↔
      (parts.filterMap Piece.inside?).mapM (evaluate equates) = .error e := by
  induction parts with
  | nil => exact ⟨nofun, nofun⟩
  | cons piece parts ih =>
    cases piece with
    | byte b =>
      rw [List.filterMap_cons_none rfl, ← ih, List.mapM_cons]
      exact bind_pure_eq_error_iff
    | hit text =>
      have first : (Piece.hit text).inside? = some ((text.drop 2).dropLast) := rfl
      rw [List.filterMap_cons_some first, List.mapM_cons, List.mapM_cons, foldPiece]
      cases evaluate equates ((text.drop 2).dropLast) with
      | error e' => exact error_eq_error_iff
      | ok value => exact bind_pure_eq_error_iff.trans (ih.trans bind_pure_eq_error_iff.symm)

/-- A text fails to be folded as its constant expressions fail to be evaluated. -/
theorem foldConstants_eq_error_iff :
    foldConstants equates text = .error e ↔
      ((pieces constantMatch? text).filterMap Piece.inside?).mapM (evaluate equates) = .error e :=
  map_eq_error_iff.trans mapM_foldPiece_error_iff

theorem exists_of_foldConstants_error (failed : foldConstants equates text = .error e) :
    ∃ inside ∈ (pieces constantMatch? text).filterMap Piece.inside?,
      evaluate equates inside = .error e := by
  obtain ⟨before, inside, after, split, -, cause⟩ :=
    mapM_eq_error_iff.mp (foldConstants_eq_error_iff.mp failed)
  exact ⟨inside, by rw [split]; simp, cause⟩

/-- An expression does not expand exactly if it is not folded. -/
theorem expandWith_eq_error_iff :
    expandWith equates delimiter expr = .error e ↔
      ((pieces constantMatch? (resolveQuotes expr)).filterMap Piece.inside?).mapM
        (evaluate equates) = .error e :=
  map_eq_error_iff.trans foldConstants_eq_error_iff

/-- The first entry of an error of a constant expression names its text. -/
theorem head?_chain_of_evaluate {text : Bytes} (failed : evaluate equates text = .error e) :
    e.chain.head? = some (.notExpression text) := by
  rcases evaluate_error failed with rfl | ⟨failure, rfl⟩ <;> rfl

theorem evaluate_congr {equates' : Table Bytes Bytes}
    (same : constant? equates' = constant? equates) (text : Bytes) :
    evaluate equates' text = evaluate equates text := by
  unfold evaluate
  rw [same]

/-- What becomes of the parts depends on the equates through the constants that they stand for, and
only where there is a constant expression. -/
theorem foldPiece_congr {equates' : Table Bytes Bytes}
    (same : parts.filterMap Piece.inside? ≠ [] →
      ∀ name, constant? equates' name = constant? equates name) :
    ∀ piece ∈ parts, foldPiece equates' piece = foldPiece equates piece := by
  intro piece mem
  cases piece with
  | byte b => rfl
  | hit text =>
    have some : parts.filterMap Piece.inside? ≠ [] :=
      List.ne_nil_of_mem (List.mem_filterMap.mpr ⟨.hit text, mem, rfl⟩)
    rw [foldPiece, foldPiece, evaluate_congr (funext (same some))]

/-- What an expression expands to depends on the constants inside of constant expressions, and on the
equates that tokens name once these are folded. -/
theorem expandWith_congr {equates' : Table Bytes Bytes}
    (constants : (pieces constantMatch? (resolveQuotes expr)).filterMap Piece.inside? ≠ [] →
      ∀ name, constant? equates' name = constant? equates name)
    (named : ∀ folded, foldConstants equates (resolveQuotes expr) = .ok folded →
      ∀ token ∈ tokens delimiter folded, equates'[token]? = equates[token]?) :
    expandWith equates' delimiter expr = expandWith equates delimiter expr := by
  have same : foldConstants equates' (resolveQuotes expr) =
      foldConstants equates (resolveQuotes expr) := by
    rw [foldConstants, foldConstants, mapM_congr (foldPiece_congr constants)]
  rw [expandWith, expandWith, same]
  cases folding : foldConstants equates (resolveQuotes expr) with
  | error e => rfl
  | ok folded =>
    have words : (tokens delimiter folded).map (replacement equates') =
        (tokens delimiter folded).map (replacement equates) := by
      refine List.map_congr_left fun token mem => ?_
      rw [replacement, replacement, named folded folding token mem]
    show Except.ok (substitute equates' delimiter folded) = _
    rw [substitute, words]
    rfl

/-- **The leftmost failure is reported, and no equate is changed.**  An expander that has a table of
equates is the same after it has expanded an expression, whether that fails or not.  Once its quoted
characters are rewritten, the expression can be divided into leftmost constant expressions and bytes
between them in one way only.  It does not expand exactly if one of these has no value; then the
error is that of the leftmost such, which it names first, and nothing is shown.  Nothing else of the
equates matters than which constants they are, where there is a constant expression, and those that
the tokens of the rewritten expression name. -/
theorem expand_leftmost (ex : Expander) (equates : Table Bytes Bytes)
    (known : ex.equates = some equates) (delimiter : UInt8) (expr : Bytes) :
    (ex.expand delimiter expr).1 = ex ∧
    ∃ parts, (∀ parts', Divided IsConstant (resolveQuotes expr) parts' ↔ parts' = parts) ∧
      let insides := parts.filterMap Piece.inside?
      let answer := (ex.expand delimiter expr).2
      ((∃ e, answer = .error e) ↔ ∃ inside ∈ insides, ∃ e, evaluate equates inside = .error e) ∧
      (∀ e, answer = .error e ↔
        ∃ before inside after, insides = before ++ inside :: after ∧
          (∀ earlier ∈ before, ∃ v, evaluate equates earlier = .ok v) ∧
          evaluate equates inside = .error e) ∧
      (∀ e, answer = .error e → shown answer = []) ∧
      (∀ inside e, evaluate equates inside = .error e →
        e.chain.head? = some (.notExpression inside)) ∧
      ∀ (ex' : Expander) (equates' : Table Bytes Bytes), ex'.equates = some equates' →
        (insides ≠ [] → ∀ name, constant? equates' name = constant? equates name) →
        (∀ folded, foldConstants equates (resolveQuotes expr) = .ok folded →
          ∀ token ∈ tokens delimiter folded, equates'[token]? = equates[token]?) →
        (ex'.expand delimiter expr).2 = answer := by
  have table : ex.table = equates := by rw [Expander.table, known, Option.getD_some]
  have answered : (ex.expand delimiter expr).2 = expandWith equates delimiter expr := by
    rw [← table]
    rfl
  refine ⟨?_, pieces constantMatch? (resolveQuotes expr),
    fun _ => constantMatch?_recognizes.divided_iff, ?_, ?_, ?_, ?_, ?_⟩
  · rw [expand, ready, known]
    rfl
  · simp only [answered, expandWith_eq_error_iff]
    exact exists_mapM_eq_error_iff
  · intro e
    rw [answered, expandWith_eq_error_iff]
    exact mapM_eq_error_iff
  · intro e failed
    rw [failed]
    rfl
  · exact fun inside e failed => head?_chain_of_evaluate failed
  · intro ex' equates' known' constants named
    have table' : ex'.table = equates' := by rw [Expander.table, known', Option.getD_some]
    rw [answered, ← expandWith_congr constants named, ← table']
    rfl

end Failures

attribute [local instance] Constant.interpreter

/-- The second of three constant expressions is the first that has no value, also where a text is
named that is no number. -/
theorem expand_leftmost_of_second :
    let ex : Expander := Expander.equate {} (ascii "N") (ascii "5")
    let ex' := ex.equate (ascii "M") (ascii "eax,2")
    let expr := ascii "$(N),'$',$((N)//0),$(N+)"
    let e : Error := .both (.notExpression (ascii "(N)//0")) (.constant .zeroDivisor)
    (ex.expand 44 expr).1 = ex ∧ (ex.expand 44 expr).2 = .error e ∧
      shown (ex.expand 44 expr).2 = [] ∧
      e.chain.head? = some (.notExpression (ascii "(N)//0")) ∧
      (ex'.expand 44 expr).2 = .error e := by
  intro ex ex' expr e
  obtain ⟨kept, parts, only, -, errors, shown, chain, same⟩ :=
    expand_leftmost ex ex.table rfl 44 expr
  obtain rfl := (only _).mp (constantMatch?_recognizes.divided_iff.mpr rfl)
  have insides : (pieces constantMatch? (resolveQuotes expr)).filterMap Piece.inside? =
      [ascii "N", ascii "(N)//0", ascii "N+"] := by decide +kernel
  have value : evaluate ex.table (ascii "N") = .ok 5 := by decide +kernel
  have none : evaluate ex.table (ascii "(N)//0") = .error e := by decide +kernel
  have failed : (ex.expand 44 expr).2 = .error e :=
    (errors e).mpr ⟨[ascii "N"], _, [ascii "N+"], insides,
      List.forall_mem_singleton.mpr ⟨5, value⟩, none⟩
  refine ⟨kept, failed, shown e failed, chain _ e none, ?_⟩
  have constants : ∀ name, constant? ex'.table name = constant? ex.table name := by
    intro name
    have table : ex'.table = ex.table.insert (ascii "M") (ascii "eax,2") := rfl
    rw [constant?, constant?, table, Table.getElem?_put]
    by_cases other : ascii "M" = name
    · subst other
      rw [if_pos rfl]
      decide +kernel
    · rw [if_neg other]
  rw [same ex' ex'.table rfl (fun _ => constants) ?_, failed]
  intro folded folding
  have unfolded : foldConstants ex.table (resolveQuotes expr) = .error e := by decide +kernel
  rw [unfolded] at folding
  cases folding

end Rpn.Expander
