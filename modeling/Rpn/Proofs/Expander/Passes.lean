import Rpn.Expander
import Rpn.Proofs.Tokens

/-!
# The passes of the expander, from the left

Each pass looks at a text from the left and goes on behind what it has found.  So what it makes of a
text can be told part by part.

* `Expander.pieces_cons` and `Expander.pieces_hit` — the parts of a text, told by what stands at its
  head;
* `Expander.resolveQuotes_append` and `Expander.resolveQuotes_hit` — a part without quotes stays,
  and a quoted character becomes its number;
* `Expander.foldConstants_append` and `Expander.foldConstants_constant` — a part without `$(` stays,
  and a constant expression whose brackets are nested once at most becomes its value;
* `Expander.expandWith_of_plain` — on a text without quotes and `$(` only equates are left to do;
* `Expander.expandWith_error` — why an expression does not expand.
-/

namespace Rpn.Expander

/-! ## Parts of a text -/

section Pieces

variable (pattern : Bytes → Option Nat)

theorem piecesFrom_seen (seen : List Piece) (skip : Nat) (text : Bytes) :
    piecesFrom pattern seen skip text = seen.reverse ++ piecesFrom pattern [] skip text := by
  induction text generalizing seen skip with
  | nil => simp [piecesFrom]
  | cons b rest ih =>
    cases skip with
    | succ skip => exact ih seen skip
    | zero =>
      simp only [piecesFrom]
      cases pattern (b :: rest) with
      | none => simp [ih (.byte b :: seen), ih [.byte b]]
      | some n =>
        simp [ih (.hit ((b :: rest).take n) :: seen), ih [.hit ((b :: rest).take n)]]

theorem piecesFrom_skip (skip : Nat) (text : Bytes) :
    piecesFrom pattern [] skip text = pieces pattern (text.drop skip) := by
  induction text generalizing skip with
  | nil => simp [piecesFrom, pieces]
  | cons b rest ih =>
    cases skip with
    | zero => rfl
    | succ skip => exact ih skip

variable {pattern}

/-- A byte at which no match begins stands for itself. -/
theorem pieces_cons {b : UInt8} {rest : Bytes} (h : pattern (b :: rest) = none) :
    pieces pattern (b :: rest) = .byte b :: pieces pattern rest := by
  simp only [pieces, piecesFrom, h]
  rw [piecesFrom_seen]
  rfl

/-- The parts behind a match are those of the text behind it. -/
theorem pieces_hit {hit : Bytes} (ne : hit ≠ []) (rest : Bytes)
    (h : pattern (hit ++ rest) = some hit.length) :
    pieces pattern (hit ++ rest) = .hit hit :: pieces pattern rest := by
  obtain ⟨b, more, rfl⟩ := List.exists_cons_of_ne_nil ne
  rw [List.cons_append] at h ⊢
  have taken : (b :: (more ++ rest)).take (b :: more).length = b :: more := by
    rw [← List.cons_append, List.take_left]
  rw [pieces, piecesFrom, h]
  simp only [taken]
  rw [piecesFrom_seen, piecesFrom_skip, List.length_cons, Nat.add_sub_cancel, List.drop_left]
  rfl

/-- Where no match begins, a text stands for itself. -/
theorem pieces_append {front rest : Bytes}
    (h : ∀ before b after, front = before ++ b :: after → pattern (b :: after ++ rest) = none) :
    pieces pattern (front ++ rest) = front.map .byte ++ pieces pattern rest := by
  induction front with
  | nil => rfl
  | cons b front ih =>
    have first : pattern (b :: (front ++ rest)) = none := h [] b front rfl
    have others := ih fun before c after eq => h (b :: before) c after (by rw [eq]; rfl)
    rw [List.cons_append, pieces_cons first, others, List.map_cons, List.cons_append]

end Pieces

/-! ## Quoted characters -/

theorem quoteMatch?_of_ne {b : UInt8} (h : b ≠ 39) (rest : Bytes) :
    quoteMatch? (b :: rest) = none := by
  simp only [quoteMatch?, if_neg h]

@[simp] theorem resolveQuotes_nil : resolveQuotes [] = [] := rfl

/-- A part without quotes stays. -/
theorem resolveQuotes_append {front : Bytes} (h : 39 ∉ front) (rest : Bytes) :
    resolveQuotes (front ++ rest) = front ++ resolveQuotes rest := by
  have plain : ∀ before b after, front = before ++ b :: after →
      quoteMatch? (b :: after ++ rest) = none := by
    intro before b after eq
    have ne : b ≠ 39 := by
      rintro rfl
      exact h (by rw [eq]; simp)
    exact quoteMatch?_of_ne ne _
  rw [resolveQuotes, pieces_append plain, List.flatMap_append, resolveQuotes, List.flatMap_map,
    List.flatMap_singleton']

theorem resolveQuotes_of_not_mem {text : Bytes} (h : 39 ∉ text) : resolveQuotes text = text := by
  have whole := resolveQuotes_append h []
  simpa using whole

/-- A match becomes what it stands for, and the pass goes on behind it. -/
theorem resolveQuotes_hit {hit : Bytes} (ne : hit ≠ []) (rest : Bytes)
    (h : quoteMatch? (hit ++ rest) = some hit.length) :
    resolveQuotes (hit ++ rest) = quotedNumber hit ++ resolveQuotes rest := by
  rw [resolveQuotes, pieces_hit ne rest h, List.flatMap_cons]
  rfl

/-! ## Constant expressions -/

/-- Brackets that are balanced and nested at most once: in front of every place as many are closed
as opened, or one less. -/
structure NestedOnce (text : Bytes) : Prop where
  bounds : ∀ n ≤ text.length, (text.take n).count 41 ≤ (text.take n).count 40 ∧
    (text.take n).count 40 ≤ (text.take n).count 41 + 1
  total : text.count 40 = text.count 41

instance (text : Bytes) : Decidable (NestedOnce text) :=
  decidable_of_iff
    ((∀ n ≤ text.length, (text.take n).count 41 ≤ (text.take n).count 40 ∧
      (text.take n).count 40 ≤ (text.take n).count 41 + 1) ∧ text.count 40 = text.count 41)
    ⟨fun h => ⟨h.1, h.2⟩, fun h => ⟨h.bounds, h.total⟩⟩

/-- The bracket behind such a text closes the constant expression that it is the inside of. -/
theorem closing?_append {text : Bytes} {inGroup : Bool}
    (bounds : ∀ n ≤ text.length, (text.take n).count 41 ≤ (text.take n).count 40 + inGroup.toNat ∧
      (text.take n).count 40 + inGroup.toNat ≤ (text.take n).count 41 + 1)
    (total : text.count 40 + inGroup.toNat = text.count 41) (count : Nat) (rest : Bytes) :
    closing? inGroup count (text ++ 41 :: rest) = some (count + text.length + 1) := by
  induction text generalizing inGroup count with
  | nil =>
    have out : inGroup = false := by
      cases inGroup with
      | false => rfl
      | true => simp at total
    simp [closing?, out]
  | cons b text ih =>
    have first : [b].count 41 ≤ [b].count 40 + inGroup.toNat ∧
        [b].count 40 + inGroup.toNat ≤ [b].count 41 + 1 :=
      bounds 1 (by simp)
    have later : ∀ n ≤ text.length,
        (b :: text.take n).count 41 ≤ (b :: text.take n).count 40 + inGroup.toNat ∧
          (b :: text.take n).count 40 + inGroup.toNat ≤ (b :: text.take n).count 41 + 1 :=
      fun n le => bounds (n + 1) (Nat.succ_le_succ le)
    have length : count + 1 + text.length + 1 = count + (b :: text).length + 1 := by
      rw [List.length_cons]
      omega
    rw [List.cons_append, closing?, ← length]
    by_cases closed : b = 41
    · -- a bracket that is closed was open
      subst closed
      cases inGroup with
      | false => simp at first
      | true =>
        simp only [List.count_cons, beq_self_eq_true, if_true, Bool.toNat_true, beq_iff_eq,
          show ¬ (41 : UInt8) = 40 by decide, if_false, Nat.add_zero] at later total
        rw [if_pos rfl, if_pos rfl]
        refine ih ?_ ?_ (count + 1)
        · intro n le
          have bound := later n le
          simp only [Bool.toNat_false]
          omega
        · simp only [Bool.toNat_false]
          omega
    · by_cases opened : b = 40
      · -- a bracket that is opened is the only one
        subst opened
        cases inGroup with
        | true => simp at first
        | false =>
          simp only [List.count_cons, beq_self_eq_true, if_true, Bool.toNat_false, beq_iff_eq,
            closed, if_false, Nat.add_zero] at later total
          rw [if_neg closed, if_pos rfl, if_neg Bool.false_ne_true]
          refine ih ?_ ?_ (count + 1)
          · intro n le
            have bound := later n le
            simp only [Bool.toNat_true]
            omega
          · simp only [Bool.toNat_true]
            omega
      · simp only [List.count_cons, beq_iff_eq, closed, opened, if_false, Nat.add_zero]
          at later total
        rw [if_neg closed, if_neg opened]
        exact ih later total (count + 1)

theorem constantMatch?_of_nestedOnce {inside : Bytes} (h : NestedOnce inside) (rest : Bytes) :
    constantMatch? (36 :: 40 :: inside ++ 41 :: rest) = some (inside.length + 3) := by
  have closed : closing? false 2 (inside ++ 41 :: rest) = some (2 + inside.length + 1) :=
    @closing?_append inside false h.bounds h.total 2 rest
  have length : 2 + inside.length + 1 = inside.length + 3 := by omega
  rw [List.cons_append, List.cons_append, constantMatch?, if_pos (by decide), closed, length]

theorem constantMatch?_of_ne {b : UInt8} (h : b ≠ 36) (rest : Bytes) :
    constantMatch? (b :: rest) = none := by
  cases rest with
  | nil => rfl
  | cons c rest => simp [constantMatch?, h]

theorem constantMatch?_of_next_ne {c : UInt8} (b : UInt8) (h : c ≠ 40) (rest : Bytes) :
    constantMatch? (b :: c :: rest) = none := by
  simp [constantMatch?, h]

/-! ## Steps that can fail -/

section Failures

variable {α β ε : Type} {e e' : ε}

/-- What is made of an answer is an answer exactly if there is one. -/
theorem map_eq_ok_iff {x : Except ε α} {f : α → β} {b : β} :
    x.map f = .ok b ↔ ∃ a, x = .ok a ∧ f a = b := by
  cases x with
  | error e => exact ⟨nofun, nofun⟩
  | ok a =>
    constructor
    · intro same
      exact ⟨a, rfl, Except.ok.inj same⟩
    · rintro ⟨_, ⟨⟩, rfl⟩
      rfl

/-- Errors are the same whatever the answers would be. -/
theorem error_eq_error_iff :
    (Except.error e : Except ε α) = .error e' ↔ (Except.error e : Except ε β) = .error e' := by
  rw [Except.error.injEq, Except.error.injEq]

/-- What is made of an answer does not matter where there is none. -/
theorem map_eq_error_iff {x : Except ε α} {f : α → β} : x.map f = .error e ↔ x = .error e := by
  cases x with
  | error e' => exact error_eq_error_iff
  | ok a => exact ⟨nofun, nofun⟩

theorem bind_pure_eq_error_iff {x : Except ε α} {f : α → β} :
    (x >>= fun a => pure (f a)) = .error e ↔ x = .error e := by
  cases x with
  | error e' => exact error_eq_error_iff
  | ok a => exact ⟨nofun, nofun⟩

/-- A list of computations fails with the error of the first that fails. -/
theorem mapM_eq_error_iff {f : α → Except ε β} {xs : List α} :
    xs.mapM f = .error e ↔
      ∃ before x after, xs = before ++ x :: after ∧ (∀ y ∈ before, ∃ b, f y = .ok b) ∧
        f x = .error e := by
  induction xs with
  | nil =>
    constructor
    · nofun
    · rintro ⟨before, x, after, eq, -⟩
      exact absurd eq (by simp)
  | cons x xs ih =>
    rw [List.mapM_cons]
    cases first : f x with
    | error e' =>
      constructor
      · intro (same : Except.error e' = _)
        cases same
        exact ⟨[], x, xs, rfl, List.forall_mem_nil _, first⟩
      · rintro ⟨before, y, after, eq, succeed, failed⟩
        cases before with
        | nil =>
          obtain ⟨rfl, rfl⟩ := List.cons.inj eq
          obtain rfl := Except.error.inj (first.symm.trans failed)
          rfl
        | cons z before =>
          obtain ⟨rfl, rfl⟩ := List.cons.inj eq
          obtain ⟨b, ok⟩ := succeed x List.mem_cons_self
          rw [first] at ok
          cases ok
    | ok out =>
      refine bind_pure_eq_error_iff.trans (ih.trans ?_)
      constructor
      · rintro ⟨before, y, after, rfl, succeed, failed⟩
        exact ⟨x :: before, y, after, rfl, List.forall_mem_cons.mpr ⟨⟨out, first⟩, succeed⟩, failed⟩
      · rintro ⟨before, y, after, eq, succeed, failed⟩
        cases before with
        | nil =>
          obtain ⟨rfl, rfl⟩ := List.cons.inj eq
          rw [first] at failed
          cases failed
        | cons z before =>
          obtain ⟨rfl, rfl⟩ := List.cons.inj eq
          exact ⟨before, y, after, rfl, (List.forall_mem_cons.mp succeed).2, failed⟩

/-- A list of computations fails if any of them does. -/
theorem exists_mapM_eq_error_iff {f : α → Except ε β} {xs : List α} :
    (∃ e, xs.mapM f = .error e) ↔ ∃ x ∈ xs, ∃ e, f x = .error e := by
  constructor
  · rintro ⟨e, failed⟩
    obtain ⟨before, x, after, rfl, -, failed⟩ := mapM_eq_error_iff.mp failed
    exact ⟨x, by simp, e, failed⟩
  · rintro ⟨x, mem, e, failed⟩
    induction xs with
    | nil => cases mem
    | cons y xs ih =>
      cases first : f y with
      | error e' =>
        exact ⟨e', mapM_eq_error_iff.mpr ⟨[], y, xs, rfl, List.forall_mem_nil _, first⟩⟩
      | ok out =>
        rcases List.mem_cons.mp mem with rfl | mem
        · rw [failed] at first
          cases first
        · obtain ⟨e', failed'⟩ := ih mem
          refine ⟨e', ?_⟩
          rw [List.mapM_cons, first]
          exact bind_pure_eq_error_iff.mpr failed'

theorem mapM_congr {f g : α → Except ε β} {xs : List α} (same : ∀ x ∈ xs, f x = g x) :
    xs.mapM f = xs.mapM g := by
  induction xs with
  | nil => rfl
  | cons x xs ih =>
    rw [List.forall_mem_cons] at same
    rw [List.mapM_cons, List.mapM_cons, same.1, ih same.2]

end Failures

/-! ## Folding -/

section FoldConstants

variable [Constant.Language] (equates : Table Bytes Bytes)

@[simp] theorem foldConstants_nil : foldConstants equates [] = .ok [] := rfl

variable {equates}

theorem foldPiece_hit {hit : Bytes} {value : Int32}
    (h : evaluate equates ((hit.drop 2).dropLast) = .ok value) :
    foldPiece equates (.hit hit) = .ok (decimal value.toInt) := by
  rw [foldPiece, h]
  rfl

/-- What becomes of the first part stands in front of what becomes of the others. -/
theorem mapM_foldPiece_cons {piece : Piece} {out : Bytes} (h : foldPiece equates piece = .ok out)
    (others : List Piece) :
    ((piece :: others).mapM (foldPiece equates)).map List.flatten =
      ((others.mapM (foldPiece equates)).map List.flatten).map (out ++ ·) := by
  rw [List.mapM_cons, h]
  cases others.mapM (foldPiece equates) <;> rfl

theorem mapM_foldPiece_bytes (front : Bytes) (others : List Piece) :
    ((front.map Piece.byte ++ others).mapM (foldPiece equates)).map List.flatten =
      ((others.mapM (foldPiece equates)).map List.flatten).map (front ++ ·) := by
  induction front with
  | nil =>
    rw [List.map_nil, List.nil_append]
    cases others.mapM (foldPiece equates) <;> rfl
  | cons b front ih =>
    have first : foldPiece equates (.byte b) = .ok [b] := rfl
    rw [List.map_cons, List.cons_append, mapM_foldPiece_cons first, ih]
    cases others.mapM (foldPiece equates) <;> rfl

/-- A part in which no constant expression begins stays. -/
theorem foldConstants_append {front rest : Bytes} (no : ¬ [36, 40] <:+: front)
    (next : rest.head? ≠ some 40) :
    foldConstants equates (front ++ rest) = (foldConstants equates rest).map (front ++ ·) := by
  have plain : ∀ before b after, front = before ++ b :: after →
      constantMatch? (b :: after ++ rest) = none := by
    intro before b after eq
    -- the byte behind `b`, which is one of the part, or the first of the rest
    cases after with
    | nil =>
      cases rest with
      | nil => rfl
      | cons c rest =>
        have ne : c ≠ 40 := fun same => next (by rw [same]; rfl)
        exact constantMatch?_of_next_ne b ne rest
    | cons c after =>
      by_cases first : b = 36
      · have ne : c ≠ 40 := by
          rintro rfl
          exact no ⟨before, after, by rw [eq, first]; simp⟩
        exact constantMatch?_of_next_ne b ne _
      · exact constantMatch?_of_ne first _
  rw [foldConstants, pieces_append plain, mapM_foldPiece_bytes, foldConstants]

theorem foldConstants_of_plain {text : Bytes} (no : ¬ [36, 40] <:+: text) :
    foldConstants equates text = .ok text := by
  have whole : foldConstants equates (text ++ []) = (foldConstants equates []).map (text ++ ·) :=
    foldConstants_append no (by simp)
  rw [List.append_nil, foldConstants_nil] at whole
  rw [whole]
  simp [Except.map]

/-- A constant expression that has a value becomes that value. -/
theorem foldConstants_constant {inside : Bytes} {value : Int32} (nested : NestedOnce inside)
    (h : evaluate equates inside = .ok value) (rest : Bytes) :
    foldConstants equates (36 :: 40 :: inside ++ 41 :: rest) =
      (foldConstants equates rest).map (decimal value.toInt ++ ·) := by
  have hit : 36 :: 40 :: inside ++ 41 :: rest = (36 :: 40 :: inside ++ [41]) ++ rest := by simp
  have matched : constantMatch? ((36 :: 40 :: inside ++ [41]) ++ rest) =
      some (36 :: 40 :: inside ++ [41]).length := by
    rw [← hit, constantMatch?_of_nestedOnce nested]
    simp
  have inner : ((36 :: 40 :: inside ++ [41]).drop 2).dropLast = inside := by
    simp
  have folded : foldPiece equates (.hit (36 :: 40 :: inside ++ [41])) =
      .ok (decimal value.toInt) := foldPiece_hit (by rw [inner, h])
  rw [hit, foldConstants, pieces_hit (by simp) rest matched, mapM_foldPiece_cons folded,
    foldConstants]

/-- On a text without quotes and constant expressions only equates are left to do. -/
theorem expandWith_of_plain {text : Bytes} (noQuote : 39 ∉ text) (no : ¬ [36, 40] <:+: text)
    (delimiter : UInt8) :
    expandWith equates delimiter text = .ok (substitute equates delimiter text) := by
  rw [expandWith, resolveQuotes_of_not_mem noQuote, foldConstants_of_plain no]
  rfl

/-- An expression that expands is folded, and then the tokens of the folded text are replaced. -/
theorem exists_of_expandWith_ok {text out : Bytes} {delimiter : UInt8}
    (expanded : expandWith equates delimiter text = .ok out) :
    ∃ folded, foldConstants equates (resolveQuotes text) = .ok folded ∧
      out = substitute equates delimiter folded := by
  obtain ⟨folded, folding, rfl⟩ := map_eq_ok_iff.mp expanded
  exact ⟨folded, folding, rfl⟩

/-! ## Expressions that do not expand -/

/-- The errors of a constant expression: it has no value at all, or none that is a word. -/
theorem evaluate_error {text : Bytes} {e : Error} (failed : evaluate equates text = .error e) :
    e = .notExpression text ∨ ∃ failure, e = .both (.notExpression text) (.constant failure) := by
  unfold evaluate at failed
  split at failed
  · cases failed
    exact Or.inr ⟨_, rfl⟩
  · split at failed
    · split at failed <;> cases failed
      exact Or.inl rfl
    · cases failed
      exact Or.inl rfl

/-- An expression does not expand only for a constant expression that has no value. -/
theorem expandWith_error {delimiter : UInt8} {expr : Bytes} {e : Error}
    (failed : expandWith equates delimiter expr = .error e) :
    ∃ text, e = .notExpression text ∨
      ∃ failure, e = .both (.notExpression text) (.constant failure) := by
  rw [expandWith, foldConstants] at failed
  cases folded : (pieces constantMatch? (resolveQuotes expr)).mapM (foldPiece equates) with
  | ok out =>
    rw [folded] at failed
    cases failed
  | error e' =>
    rw [folded] at failed
    cases failed
    obtain ⟨-, piece, -, -, -, eq⟩ := mapM_eq_error_iff.mp folded
    cases piece with
    | byte b => cases eq
    | hit text =>
      cases found : evaluate equates ((text.drop 2).dropLast) with
      | ok value =>
        rw [foldPiece, found] at eq
        cases eq
      | error e' =>
        rw [foldPiece, found] at eq
        cases eq
        exact ⟨_, evaluate_error found⟩

end FoldConstants

end Rpn.Expander
