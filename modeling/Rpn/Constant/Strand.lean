import Rpn.Bytes

/-!
# Texts as values

A text that a constant expression computes with is a unit and the number of times that it is
repeated.  Most texts are one unit; a product of a text is long only when it is read.

* `Strand.toByteArray` is what a strand stands for, and `Strand.size` is the length of that;
* `Strand.compare` orders strands by their first difference.  Two sequences with periods `p` and
  `q` that agree on `p + q` elements agree throughout, so no more of two strands is looked at
  than their units are long;
* `Strand.occursIn` looks for a strand in another one, going once along each of them.
-/

namespace Rpn.Constant

/-- The text that repeats `unit` `count` times. -/
structure Strand where
  unit : ByteArray
  count : Nat := 1

/-- A sequence repeated, by way of half as many repetitions; `fuel` bounds the number of them. -/
def repeatedFor {σ : Type} [EmptyCollection σ] [Append σ] (unit : σ) : Nat → Nat → σ
  | 0, _ => ∅
  | fuel + 1, count =>
    if count = 0 then ∅
    else
      let half := repeatedFor unit fuel (count / 2)
      if count % 2 = 0 then half ++ half else half ++ half ++ unit

/-- A sequence repeated. -/
def repeated {σ : Type} [EmptyCollection σ] [Append σ] (unit : σ) (count : Nat) : σ :=
  repeatedFor unit count count

namespace Strand

/-- The strand of a text. -/
def ofBytes (bytes : Bytes) : Strand where
  unit := ⟨bytes.toArray⟩

/-- The number of bytes. -/
def size (s : Strand) : Nat :=
  s.unit.size * s.count

/-- The bytes of a strand. -/
def toByteArray (s : Strand) : ByteArray :=
  if s.count = 1 then s.unit else repeated s.unit s.count

/-- The bytes of a strand as a text. -/
def toBytes (s : Strand) : Bytes :=
  s.toByteArray.toList

/-- A strand followed by another one. -/
def append (s t : Strand) : Strand where
  unit := s.toByteArray ++ t.toByteArray

/-- The byte at a place, and 0 behind the end. -/
@[inline] def byteOf (bytes : ByteArray) (i : Nat) : UInt8 :=
  if h : i < bytes.size then bytes[i] else 0

/-- The byte at a position, as a text. -/
def byteAt (s : Strand) (k : Nat) : Strand where
  unit := ⟨#[byteOf s.unit (k % s.unit.size)]⟩

/-- The first `n` bytes of a strand that has as many. -/
def head (s : Strand) (n : Nat) : ByteArray :=
  if s.count = 1 then s.unit.extract 0 n
  else (repeated s.unit (n / s.unit.size + 1)).extract 0 n

/-! ## Order -/

/-- The place of the first difference of two texts, which differ among the `n` bytes from a place
on; `fuel` bounds how often these are halved. -/
def differenceFrom (a b : ByteArray) : Nat → Nat → Nat → Nat
  | 0, i, _ => i
  | fuel + 1, i, n =>
    if n ≤ 1 then i
    else
      let half := n / 2
      if a.extract i (i + half) == b.extract i (i + half) then
        differenceFrom a b fuel (i + half) (n - half)
      else differenceFrom a b fuel i half

/-- Compares two texts of `n` bytes by their first difference. -/
def compareBytes (a b : ByteArray) (n : Nat) : Ordering :=
  if a == b then .eq
  else
    let i := differenceFrom a b n 0 n
    Ord.compare (byteOf a i) (byteOf b i)

/-- Compares as many bytes as two strands have both. -/
def compareHeads (s t : Strand) : Ordering :=
  let n := min (min s.size t.size) (s.unit.size + t.unit.size)
  compareBytes (s.head n) (t.head n) n

/-- Compares two strands by their first difference. -/
def compare (s t : Strand) : Ordering :=
  (s.compareHeads t).then (Ord.compare s.size t.size)

/-- Whether two strands have the same bytes.  Units of one length are repeated equally often. -/
def same (s t : Strand) : Bool :=
  s.size = t.size &&
    (s.size = 0 ||
      if s.unit.size = t.unit.size then s.unit == t.unit else s.compareHeads t == .eq)

/-! ## Search -/

/-- A text to be looked for. -/
structure Needle where
  bytes : ByteArray
  /-- For each head of the text the length of the longest shorter head that ends it. -/
  borders : Array Nat := #[]

/-- How much of a text is matched behind a byte, where `matched` bytes of it were matched in front
of that.  A shorter match is tried at most `fuel` times. -/
def Needle.extend (needle : Needle) (b : UInt8) : Nat → Nat → Nat
  | 0, _ => 0
  | fuel + 1, matched =>
    if matched < needle.bytes.size && byteOf needle.bytes matched = b then matched + 1
    else if matched = 0 then 0
    else needle.extend b fuel (needle.borders.getD (matched - 1) 0)

/-- Adds the borders of `n` more heads of a text, of which `matched` is the last border. -/
def Needle.addBorders (needle : Needle) : Nat → Nat → Nat → Needle
  | 0, _, _ => needle
  | n + 1, i, matched =>
    let matched := needle.extend (byteOf needle.bytes i) (matched + 1) matched
    Needle.addBorders { needle with borders := needle.borders.push matched } n (i + 1) matched

/-- Prepares a text that is not empty to be looked for. -/
def Needle.ofByteArray (bytes : ByteArray) : Needle :=
  Needle.addBorders { bytes, borders := #[0] } (bytes.size - 1) 1 0

/-- Whether a text occurs in another one, of which `n` bytes are left, given how much of it was
matched in front of them.  Most bytes are not `first`, the first of the text, and match nothing. -/
def occursFrom (needle : Needle) (first : UInt8) (bytes : ByteArray) : Nat → Nat → Bool
  | 0, _ => false
  | n + 1, matched =>
    let b := byteOf bytes (bytes.size - (n + 1))
    if matched = 0 && b ≠ first then occursFrom needle first bytes n 0
    else
      let matched := needle.extend b (matched + 1) matched
      if matched = needle.bytes.size then true else occursFrom needle first bytes n matched

/-- Whether a strand occurs in another one.  If it does, it begins within the first unit. -/
def occursIn (s t : Strand) : Bool :=
  if t.size < s.size then false
  else if s.size = 0 then true
  else
    let bytes := s.toByteArray
    let n := min t.size (t.unit.size + bytes.size)
    occursFrom (.ofByteArray bytes) (byteOf bytes 0) (t.head n) n 0

example : (ofBytes (ascii "aab")).occursIn { ofBytes (ascii "aaaab") with count := 2 } = true := by
  decide
example : (ofBytes (ascii "abab")).compare { ofBytes (ascii "ab") with count := 3 } = .lt := by
  decide

end Strand

end Rpn.Constant
