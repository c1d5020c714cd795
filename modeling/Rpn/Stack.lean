/-!
# Bounded stacks

A stack of 32-bit words with a limit on its depth.  A limit that is not positive selects the
default depth.  A push onto a full stack is refused and changes nothing.  A stack keeps count
of its words, so that a push needs no look at them.

* `pop?_push?` says that a pop takes back what a push put there;
* `push?_eq_none_iff` says that only a full stack refuses.
-/

namespace Rpn

/-- A bounded stack of words, the top first. -/
structure Stack where
  data : List Int32 := []
  limit : Int64 := 0
  /-- The number of words on the stack. -/
  size : Nat := data.length
  size_eq : size = data.length := by rfl
  deriving DecidableEq, Repr

namespace Stack

/-- The depth of a stack for which none is chosen. -/
def defaultDepth : Nat := 32

/-- An empty stack of a given depth.  Depths from 2^63 on are not positive limits, and select
the default. -/
def ofDepth (depth : UInt64) : Stack where
  limit := depth.toInt64

/-- The number of words a stack can hold. -/
def capacity (s : Stack) : Nat :=
  if s.limit ≤ 0 then defaultDepth else s.limit.toInt.toNat

/-- Whether a stack holds nothing. -/
def isEmpty (s : Stack) : Bool :=
  s.data.isEmpty

/-- Whether a stack holds as much as it can, or more where its limit was lowered. -/
def isFull (s : Stack) : Bool :=
  s.capacity ≤ s.size

/-- The words of a stack, the bottom first. -/
def toList (s : Stack) : List Int32 :=
  s.data.reverse

/-- Puts a word on top, unless the stack is full. -/
def push? (s : Stack) (value : Int32) : Option Stack :=
  if s.isFull then none
  else some ⟨value :: s.data, s.limit, s.size + 1, by rw [s.size_eq, List.length_cons]⟩

/-- The word on top. -/
def peek? (s : Stack) : Option Int32 :=
  s.data.head?

/-- A stack without the word on top. -/
def below (s : Stack) : Stack :=
  ⟨s.data.tail, s.limit, s.size - 1, by rw [s.size_eq, List.length_tail]⟩

/-- Takes the word on top off the stack. -/
def pop? (s : Stack) : Option (Int32 × Stack) :=
  s.peek?.map fun top => (top, s.below)

/-- Empties a stack and keeps its limit. -/
def clear (s : Stack) : Stack :=
  { limit := s.limit }

theorem push?_eq_none_iff {s : Stack} {value : Int32} :
    s.push? value = none ↔ s.capacity ≤ s.size := by
  simp [push?, isFull]

theorem pop?_push? {s t : Stack} {value : Int32} (h : s.push? value = some t) :
    t.pop? = some (value, s) := by
  unfold push? at h
  split at h
  · cases h
  · cases h
    rfl

end Stack

end Rpn
