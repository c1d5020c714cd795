import Rpn.Tokens

/-!
# What a feed asks its consumer

* `Feed.recorded` — a consumer that keeps a record of the elements it is asked about;
* `Feed.GoesOn` — a consumer goes on with elements in turn, and `Feed.goesOn_or_stops`: it does with
  all elements of a list, or up to one that it stops at;
* `Sequence` — how sequences are put together: given ones, tokens, and concatenations of sequences,
  nested to any depth;
* `Sequence.run_recorded` — whichever way a sequence is put together, its consumer is asked about the
  elements in order up to the first that it stops at, and about nothing behind it.
-/

namespace Rpn

namespace Feed

variable {α σ : Type} {consume : α → σ → ForInStep σ} {a : α} {front rest elements calls : List α}
  {s before last : σ}

/-- Answers as a consumer does, and writes down what it is asked about. -/
def recorded (consume : α → σ → ForInStep σ) (a : α) : σ × List α → ForInStep (σ × List α)
  | (s, calls) =>
    match consume a s with
    | .done s => .done (s, calls ++ [a])
    | .yield s => .yield (s, calls ++ [a])

/-- A consumer goes on with each of the elements in turn, from one state to another. -/
inductive GoesOn (consume : α → σ → ForInStep σ) : List α → σ → σ → Prop
  | nil {s : σ} : GoesOn consume [] s s
  | cons {a : α} {rest : List α} {s next last : σ} :
      consume a s = .yield next → GoesOn consume rest next last → GoesOn consume (a :: rest) s last

/-- A consumer goes on with all elements, or stops at one behind some that it goes on with. -/
theorem goesOn_or_stops (consume : α → σ → ForInStep σ) (elements : List α) (s : σ) :
    (∃ last, GoesOn consume elements s last) ∨
      ∃ front a rest before last, elements = front ++ a :: rest ∧ GoesOn consume front s before ∧
        consume a before = .done last := by
  induction elements generalizing s with
  | nil => exact Or.inl ⟨s, .nil⟩
  | cons a rest ih =>
    cases answer : consume a s with
    | done last => exact Or.inr ⟨[], a, rest, s, last, rfl, .nil, answer⟩
    | yield next =>
      rcases ih next with ⟨last, on⟩ | ⟨front, b, behind, before, last, rfl, on, stop⟩
      · exact Or.inl ⟨last, .cons answer on⟩
      · exact Or.inr ⟨a :: front, b, behind, before, last, rfl, .cons answer on, stop⟩

/-- Elements that the consumer goes on with are written down, and then the fold goes on behind them. -/
theorem GoesOn.foldUntil_append (on : GoesOn consume front s before) (rest calls : List α) :
    foldUntil (recorded consume) (front ++ rest) (s, calls) =
      foldUntil (recorded consume) rest (before, calls ++ front) := by
  induction on generalizing calls with
  | nil => rw [List.nil_append, List.append_nil]
  | @cons a front s next before more _ ih =>
    have answer : recorded consume a (s, calls) = .yield (next, calls ++ [a]) := by
      rw [recorded, more]
    rw [List.cons_append, foldUntil, answer]
    show foldUntil (recorded consume) (front ++ rest) (next, calls ++ [a]) = _
    rw [ih, List.append_assoc, List.singleton_append]

theorem GoesOn.foldUntil_eq (on : GoesOn consume elements s last) :
    foldUntil (recorded consume) elements (s, []) = .yield (last, elements) := by
  have all := on.foldUntil_append [] []
  rwa [List.append_nil, List.nil_append] at all

/-- The element that the consumer stops at is the last that is written down. -/
theorem GoesOn.foldUntil_eq_of_stop (on : GoesOn consume front s before)
    (stop : consume a before = .done last) (rest : List α) :
    foldUntil (recorded consume) (front ++ a :: rest) (s, []) = .done (last, front ++ [a]) := by
  have answer : recorded consume a (before, front) = .done (last, front ++ [a]) := by
    rw [recorded, stop]
  rw [on.foldUntil_append, List.nil_append, foldUntil, answer]

theorem foldUntil_recorded_eq_yield_iff :
    foldUntil (recorded consume) elements (s, []) = .yield (last, calls) ↔
      calls = elements ∧ GoesOn consume elements s last := by
  constructor
  · intro ended
    rcases goesOn_or_stops consume elements s with
      ⟨last, on⟩ | ⟨front, a, rest, before, last, rfl, on, stop⟩
    · rw [on.foldUntil_eq] at ended
      cases ended
      exact ⟨rfl, on⟩
    · rw [on.foldUntil_eq_of_stop stop] at ended
      cases ended
  · intro ⟨all, on⟩
    rw [all, on.foldUntil_eq]

theorem foldUntil_recorded_eq_done_iff :
    foldUntil (recorded consume) elements (s, []) = .done (last, calls) ↔
      ∃ front a rest before, elements = front ++ a :: rest ∧ calls = front ++ [a] ∧
        GoesOn consume front s before ∧ consume a before = .done last := by
  constructor
  · intro stopped
    rcases goesOn_or_stops consume elements s with
      ⟨last, on⟩ | ⟨front, a, rest, before, last, rfl, on, stop⟩
    · rw [on.foldUntil_eq] at stopped
      cases stopped
    · rw [on.foldUntil_eq_of_stop stop] at stopped
      cases stopped
      exact ⟨front, a, rest, before, rfl, rfl, on, stop⟩
  · intro ⟨front, a, rest, before, split, asked, on, stop⟩
    rw [split, asked, on.foldUntil_eq_of_stop stop]

end Feed

/-! ## Sequences put together -/

mutual

/-- How sequences are put together; the elements may be pairs, such as a name with a value. -/
inductive Sequence : Type → Type 1
  /-- A sequence from elsewhere, with the elements that it delivers to every consumer. -/
  | given {α : Type} (feed : Feed α) (elements : List α) : feed.Delivers elements → Sequence α
  /-- The tokens of an expression. -/
  | tokens (delimiter : UInt8) (expr : Bytes) : Sequence Bytes
  /-- Sequences one after the other. -/
  | concat {α : Type} : Sequences α → Sequence α

/-- Any number of sequences, in order. -/
inductive Sequences : Type → Type 1
  | nil {α : Type} : Sequences α
  | cons {α : Type} : Sequence α → Sequences α → Sequences α

end

mutual

/-- The feed that delivers a sequence. -/
def Sequence.feed {α : Type} : Sequence α → Feed α
  | .given feed _ _ => feed
  | .tokens delimiter expr => tokenFeed delimiter expr
  | .concat parts => Feed.concat parts.feeds

def Sequences.feeds {α : Type} : Sequences α → List (Feed α)
  | .nil => []
  | .cons first others => first.feed :: others.feeds

end

mutual

/-- The elements of a sequence as one flat list. -/
def Sequence.elements {α : Type} : Sequence α → List α
  | .given _ elements _ => elements
  | .tokens delimiter expr => Rpn.tokens delimiter expr
  | .concat parts => parts.elements

def Sequences.elements {α : Type} : Sequences α → List α
  | .nil => []
  | .cons first others => first.elements ++ others.elements

end

/-- The sequence of the elements of a list. -/
def Sequence.ofList {α : Type} (xs : List α) : Sequence α :=
  .given (Feed.ofList xs) xs (Feed.delivers_ofList xs)

-- by recursion on how a sequence is put together: parts in front of a concatenation go on to the
-- parts behind them as long as the consumer does not stop
mutual

theorem Sequence.delivers {α : Type} :
    (sequence : Sequence α) → sequence.feed.Delivers sequence.elements
  | .given _ _ delivers => delivers
  | .tokens delimiter expr => delivers_tokenFeed delimiter expr
  | .concat parts => parts.delivers

theorem Sequences.delivers {α : Type} :
    (parts : Sequences α) → (Feed.concat parts.feeds).Delivers parts.elements
  | .nil => Feed.delivers_concat_nil
  | .cons first others => Feed.delivers_concat_cons first.delivers others.delivers

end

/-- **A sequence respects every consumer.**  However it is put together, it leaves the consumer in the
state of a fold over the flat list of its elements that ends when the consumer stops.  A consumer that
goes on with every element is asked about all of them in order; one that stops is asked about those in
front of the first that it stops at, about that one, and about nothing afterwards. -/
theorem Sequence.run_recorded {α σ : Type} (sequence : Sequence α)
    (consume : α → σ → ForInStep σ) (start : σ) :
    sequence.feed.run consume start = foldUntil consume sequence.elements start ∧
    (∀ last calls, sequence.feed.run (Feed.recorded consume) (start, []) = .yield (last, calls) ↔
      calls = sequence.elements ∧ Feed.GoesOn consume sequence.elements start last) ∧
    ∀ last calls, sequence.feed.run (Feed.recorded consume) (start, []) = .done (last, calls) ↔
      ∃ front a rest before, sequence.elements = front ++ a :: rest ∧ calls = front ++ [a] ∧
        Feed.GoesOn consume front start before ∧ consume a before = .done last := by
  refine ⟨sequence.delivers consume start, ?_, ?_⟩
  · intro last calls
    rw [sequence.delivers]
    exact Feed.foldUntil_recorded_eq_yield_iff
  · intro last calls
    rw [sequence.delivers]
    exact Feed.foldUntil_recorded_eq_done_iff

/-- A consumer that stops at the last token of an inner concatenation is asked neither about the tokens
behind it nor about that one again. -/
theorem Sequence.run_recorded_of_nested :
    let inner := Sequence.concat (.cons (.ofList []) (.cons (.tokens 44 (ascii "1,,eax")) .nil))
    let outer := Sequence.concat (.cons inner (.cons (.tokens 44 (ascii "+,eax")) .nil))
    let consume := fun word count => if word = ascii "eax" then .done (count + 1) else .yield (count + 1)
    outer.elements = [ascii "1", ascii "eax", ascii "+", ascii "eax"] ∧
      outer.feed.run consume 0 = .done 2 ∧
      outer.feed.run (Feed.recorded consume) (0, []) = .done (2, [ascii "1", ascii "eax"]) := by
  intro inner outer consume
  have flat : outer.elements = [ascii "1", ascii "eax", ascii "+", ascii "eax"] := rfl
  obtain ⟨folded, -, stops⟩ := outer.run_recorded consume 0
  rw [flat] at folded stops
  refine ⟨flat, folded, (stops 2 _).mpr ⟨[ascii "1"], ascii "eax", _, 1, rfl, rfl, ?_, rfl⟩⟩
  exact .cons rfl .nil

end Rpn
