/-!
# Feeds

A feed delivers a sequence to a consumer, one element at a time.  The consumer holds a state
and answers each element with its next state and whether to go on; after it has answered
`done` it is never asked again.

* `Feed.ofList` delivers the elements of a list, `Feed.concat` one feed after the other;
* `foldUntil` is the consumer folded over a plain list, and `Feed.Delivers` says that a feed
  does to every consumer what that fold does;
* `delivers_concat_cons` says that a concatenation delivers the concatenated lists;
* `Delivers.toList_eq` and `Delivers.take_eq` say what is collected from a feed.
-/

namespace Rpn

/-- Folds a consumer over a list until it answers `done`. -/
def foldUntil {α σ : Type} (consume : α → σ → ForInStep σ) : List α → σ → ForInStep σ
  | [], s => .yield s
  | a :: rest, s =>
    match consume a s with
    | .done s => .done s
    | .yield s => foldUntil consume rest s

theorem foldUntil_append {α σ : Type} (consume : α → σ → ForInStep σ) (xs ys : List α) (s : σ) :
    foldUntil consume (xs ++ ys) s =
      match foldUntil consume xs s with
      | .done s => .done s
      | .yield s => foldUntil consume ys s := by
  induction xs generalizing s with
  | nil => rfl
  | cons a rest ih =>
    simp only [List.cons_append, foldUntil]
    cases consume a s with
    | done s => rfl
    | yield s => exact ih s

/-- A sequence as what it does to a consumer and the state it starts with. -/
structure Feed (α : Type) where
  run {σ : Type} (consume : α → σ → ForInStep σ) (start : σ) : ForInStep σ

namespace Feed

variable {α : Type}

/-- Delivers the elements of a list in order. -/
def ofList (xs : List α) : Feed α where
  run consume start := foldUntil consume xs start

/-- Runs feeds in turn as long as the consumer goes on. -/
def runAll {σ : Type} (consume : α → σ → ForInStep σ) : List (Feed α) → σ → ForInStep σ
  | [], s => .yield s
  | feed :: rest, s =>
    match feed.run consume s with
    | .done s => .done s
    | .yield s => runAll consume rest s

/-- Delivers every element of each feed in turn. -/
def concat (feeds : List (Feed α)) : Feed α where
  run consume start := runAll consume feeds start

/-- All elements that a feed delivers. -/
def toList (feed : Feed α) : List α :=
  (feed.run (fun a seen => .yield (a :: seen)) []).value.reverse

/-- Keeps an element, the latest first, and goes on as long as more are wanted. -/
def keep (a : α) : Nat × List α → ForInStep (Nat × List α)
  | (0, seen) => .done (0, a :: seen)
  | (left + 1, seen) => .yield (left, a :: seen)

/-- The elements that a feed delivers to a consumer that stops after `n` of them; with `n` 0
the feed is not started. -/
def take (feed : Feed α) : Nat → List α
  | 0 => []
  | n + 1 => (feed.run keep (n, [])).value.2.reverse

/-- A feed delivers a list when every consumer ends as it does folded over the list. -/
def Delivers (feed : Feed α) (xs : List α) : Prop :=
  ∀ {σ : Type} (consume : α → σ → ForInStep σ) (s : σ),
    feed.run consume s = foldUntil consume xs s

theorem delivers_ofList (xs : List α) : (ofList xs).Delivers xs :=
  fun _ _ => rfl

theorem delivers_concat_nil : (concat ([] : List (Feed α))).Delivers [] :=
  fun _ _ => rfl

theorem delivers_concat_cons {feed : Feed α} {feeds : List (Feed α)} {xs ys : List α}
    (h : feed.Delivers xs) (hs : (concat feeds).Delivers ys) :
    (concat (feed :: feeds)).Delivers (xs ++ ys) := by
  intro σ consume s
  rw [foldUntil_append, ← h consume s]
  show runAll consume (feed :: feeds) s = _
  rw [runAll]
  split
  · rfl
  · exact hs consume _

theorem foldUntil_cons (xs seen : List α) :
    foldUntil (fun a seen => .yield (a :: seen)) xs seen = .yield (xs.reverse ++ seen) := by
  induction xs generalizing seen with
  | nil => rfl
  | cons a rest ih =>
    rw [List.reverse_cons, List.append_assoc]
    exact ih (a :: seen)

/-- All elements of a feed are the list that it delivers. -/
theorem Delivers.toList_eq {feed : Feed α} {xs : List α} (h : feed.Delivers xs) :
    feed.toList = xs := by
  rw [toList, h, foldUntil_cons]
  show (xs.reverse ++ []).reverse = xs
  rw [List.append_nil, List.reverse_reverse]

theorem foldUntil_keep (xs : List α) (n : Nat) (seen : List α) :
    (foldUntil keep xs (n, seen)).value.2 = (xs.take (n + 1)).reverse ++ seen := by
  induction xs generalizing n seen with
  | nil => rfl
  | cons a rest ih =>
    rw [List.take_succ_cons, List.reverse_cons, List.append_assoc]
    cases n with
    | zero => rfl
    | succ n => exact ih n (a :: seen)

/-- A consumer that stops after some elements is given the front of the list. -/
theorem Delivers.take_eq {feed : Feed α} {xs : List α} (h : feed.Delivers xs) (n : Nat) :
    feed.take n = xs.take n := by
  cases n with
  | zero => rfl
  | succ n => rw [take, h, foldUntil_keep, List.append_nil, List.reverse_reverse]

end Feed

end Rpn
