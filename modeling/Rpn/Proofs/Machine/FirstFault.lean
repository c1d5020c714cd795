import Rpn.Proofs.Machine.Height

/-!
# The first token that fails

An expression is evaluated up to the first token that fails, and its error tells that token and its
place.

* `Machine.Passes` — tokens that succeed one after the other;
* `Machine.FailsAt` — the tokens in front of a place pass, and the one at the place fails;
* `Machine.steps_eq_error_iff` and `Machine.eval_eq_atToken_iff` — tokens in order, and an
  expression, blame a token exactly if it is the first that fails.
-/

namespace Rpn.Machine

/-- Tokens that succeed one after the other lead from a machine to another. -/
inductive Passes : Machine → List Bytes → Machine → Prop
  | nil {m : Machine} : Passes m [] m
  | cons {m m₁ m₂ : Machine} {token : Bytes} {rest : List Bytes} :
      m.step token = (m₁, .ok ()) → Passes m₁ rest m₂ → Passes m (token :: rest) m₂

/-- The tokens in front of a place pass, and lead to the machine `before`; the one at the place fails
for a cause, and leaves the machine `after`. -/
structure FailsAt (m : Machine) (words : List Bytes) (place : Nat) (before : Machine) (token : Bytes)
    (cause : Error) (after : Machine) : Prop where
  found : words[place]? = some token
  passed : m.Passes (words.take place) before
  failed : before.step token = (after, .error cause)

variable {m before after : Machine} {words rest : List Bytes} {token word : Bytes} {place : Nat}
  {cause : Error}

theorem Passes.aligned (h : m.Passes words after) (aligned : m.Aligned) : after.Aligned := by
  induction h with
  | nil => exact aligned
  | @cons m m₁ m₂ token rest stepped _ ih =>
    have next := aligned_kept.step aligned token
    rw [stepped] at next
    exact ih next

theorem not_failsAt_nil : ¬ FailsAt m [] place before token cause after := by
  intro h
  cases h.found

/-- The first of some tokens fails, or it passes and one of the others fails. -/
theorem failsAt_cons_iff :
    FailsAt m (token :: rest) place before word cause after ↔
      (place = 0 ∧ before = m ∧ word = token ∧ m.step token = (after, .error cause)) ∨
      ∃ place' m₁, place = place' + 1 ∧ m.step token = (m₁, .ok ()) ∧
        FailsAt m₁ rest place' before word cause after := by
  constructor
  · rintro ⟨found, passed, failed⟩
    cases place with
    | zero =>
      cases found
      cases passed
      exact Or.inl ⟨rfl, rfl, rfl, failed⟩
    | succ place =>
      cases passed with
      | cons stepped passed => exact Or.inr ⟨place, _, rfl, stepped, found, passed, failed⟩
  · rintro (⟨rfl, rfl, rfl, failed⟩ | ⟨place', m₁, rfl, stepped, found, passed, failed⟩)
    · exact ⟨rfl, .nil, failed⟩
    · exact ⟨found, .cons stepped passed, failed⟩

theorem FailsAt.place_lt (h : FailsAt m words place before token cause after) :
    place < words.length :=
  (List.getElem?_eq_some_iff.mp h.found).1

/-- **Tokens in order blame the first that fails**, and leave what it leaves. -/
theorem steps_eq_error_iff {index : Nat} {e : Error} :
    m.steps index words = (after, .error e) ↔
      ∃ place before token cause, e = .atToken (Int64.ofNat (index + place)) token cause ∧
        FailsAt m words place before token cause after := by
  induction words generalizing m index with
  | nil =>
    constructor
    · intro failed
      cases failed
    · rintro ⟨_, _, _, _, -, h⟩
      exact absurd h not_failsAt_nil
  | cons first rest ih =>
    rw [steps]
    rcases stepped : m.step first with ⟨m₁, cause | _⟩
    · -- the first token fails, and no later one is reached
      constructor
      · intro failed
        cases failed
        exact ⟨0, m, first, cause, rfl, failsAt_cons_iff.mpr (Or.inl ⟨rfl, rfl, rfl, stepped⟩)⟩
      · rintro ⟨place, before, token, cause', rfl, h⟩
        rcases failsAt_cons_iff.mp h with ⟨rfl, rfl, rfl, failed⟩ | ⟨_, _, -, passed, -⟩
        · rw [stepped] at failed
          cases failed
          rfl
        · rw [stepped] at passed
          cases passed
    · constructor
      · intro failed
        obtain ⟨place, before, token, cause, rfl, h⟩ := ih.mp failed
        refine ⟨place + 1, before, token, cause, ?_, ?_⟩
        · rw [show index + 1 + place = index + (place + 1) by omega]
        · exact failsAt_cons_iff.mpr (Or.inr ⟨place, m₁, rfl, stepped, h⟩)
      · rintro ⟨place, before, token, cause, rfl, h⟩
        rcases failsAt_cons_iff.mp h with ⟨-, -, -, failed⟩ | ⟨place', m₂, rfl, passed, h⟩
        · rw [stepped] at failed
          cases failed
        · rw [stepped] at passed
          cases passed
          refine ih.mpr ⟨place', before, token, cause, ?_, h⟩
          rw [show index + 1 + place' = index + (place' + 1) by omega]

/-! ## Expressions -/

theorem top_ne_atToken (m : Machine) (i : Int64) (token : Bytes) (cause : Error) :
    m.top ≠ .error (.atToken i token cause) := by
  intro failed
  rcases m.top_cases with ⟨-, eq⟩ | ⟨-, value, eq⟩ <;> rw [eq] at failed <;> cases failed

theorem toInt_ofNat_of_lt_tokenLimit {n : Nat} (small : n < tokenLimit) :
    (Int64.ofNat n).toInt = n := by
  have limit : tokenLimit = 4096 := rfl
  exact Int64.toInt_ofNat_of_lt (by omega)

/-- An expression of not too many tokens blames a token exactly if its tokens in order do. -/
theorem eval_eq_atToken_iff_steps {expr : Bytes} {i : Int64}
    (short : (tokens m.delimiter expr).length ≤ tokenLimit) :
    m.eval expr = (after, .error (.atToken i token cause)) ↔
      m.steps 0 (tokens m.delimiter expr) = (after, .error (.atToken i token cause)) := by
  rw [m.eval_of_length_le short]
  rcases m.steps 0 (tokens m.delimiter expr) with ⟨m', e | _⟩
  · constructor <;> intro failed <;> cases failed <;> rfl
  · constructor
    · intro failed
      exact absurd (congrArg Prod.snd failed) (m'.top_ne_atToken i token cause)
    · intro failed
      cases failed

/-- An expression blames a token exactly if it is the first that fails. -/
theorem eval_eq_atToken_iff {expr : Bytes} {i : Int64} :
    m.eval expr = (after, .error (.atToken i token cause)) ↔
      (tokens m.delimiter expr).length ≤ tokenLimit ∧
        ∃ (place : Nat) (before : Machine), i.toInt = place ∧
          FailsAt m (tokens m.delimiter expr) place before token cause after := by
  rcases Nat.lt_or_ge tokenLimit (tokens m.delimiter expr).length with long | short
  · rw [m.eval_of_length_gt long]
    constructor
    · intro failed
      cases failed
    · rintro ⟨short, -⟩
      omega
  · rw [eval_eq_atToken_iff_steps short, steps_eq_error_iff]
    constructor
    · rintro ⟨place, before, _, _, same, h⟩
      cases same
      refine ⟨short, place, before, ?_, h⟩
      rw [Nat.zero_add]
      exact toInt_ofNat_of_lt_tokenLimit (Nat.lt_of_lt_of_le h.place_lt short)
    · rintro ⟨-, place, before, index, h⟩
      have same : i = Int64.ofNat (0 + place) := by
        rw [Nat.zero_add, ← Int64.toInt_inj, index,
          toInt_ofNat_of_lt_tokenLimit (Nat.lt_of_lt_of_le h.place_lt short)]
      exact ⟨place, before, token, cause, by rw [same], h⟩

end Rpn.Machine
