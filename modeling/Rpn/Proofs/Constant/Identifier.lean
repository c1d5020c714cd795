import Rpn.Constant.Interpreter
import Rpn.Proofs.Constant.Language
import Rpn.Proofs.Text.Utf8

/-!
# The names of the interpreter

* `IsIdentifier` — the texts that the interpreter reads as names;
* `IsIdentifier.mem`, `IsIdentifier.isNameByte` and `IsIdentifier.exists_cons` — the bytes of such a
  text;
* `IsIdentifier.of_small` — names of ASCII characters.
-/

namespace Rpn

/-- A text that the interpreter reads as a name: a letter or `_`, and then letters, digits and
`_`, but none of the words with a meaning of their own. -/
structure IsIdentifier (name : Bytes) : Prop where
  spelled : ∃ (first : Char) (rest : List Char),
    name = (first :: rest).flatMap (fun c => Utf8.encode c.toNat) ∧
      Constant.Lexeme.isNameStart first.toNat = true ∧
      ∀ c ∈ rest, Constant.Lexeme.isNamePoint c.toNat = true
  not_keyword : name ∉ Constant.Lexeme.keywords.map Prod.fst
  not_refused : name ∉ Constant.Lexeme.refusedWords

/-! ## The bytes of names -/

open Constant.Lexeme in
/-- The bytes of a name are its ASCII characters, and bytes from 128 on. -/
theorem IsIdentifier.mem {name : Bytes} (h : IsIdentifier name) {b : UInt8} (mem : b ∈ name) :
    isNamePoint b.toNat = true ∨ 128 ≤ b.toNat := by
  obtain ⟨first, rest, rfl, start, others⟩ := h.spelled
  obtain ⟨c, known, inside⟩ := List.mem_flatMap.mp mem
  have point : isNamePoint c.toNat = true := by
    rcases List.mem_cons.mp known with rfl | known
    · rw [isNamePoint, start, Bool.or_true]
    · exact others c known
  rcases Utf8.mem_encode c.valid inside with eq | large
  · left
    rw [eq]
    exact point
  · exact Or.inr large

/-- The interpreter has no other bytes in its names than languages have in general. -/
theorem IsIdentifier.isNameByte {name : Bytes} (h : IsIdentifier name) {b : UInt8}
    (mem : b ∈ name) : Constant.isNameByte b = true := by
  have small : ∀ c : Fin 128, Constant.Lexeme.isNamePoint c.val = true →
      Constant.isNameByte c.val.toUInt8 = true := by decide +kernel
  have large : ∀ c : Fin 256, 128 ≤ c.val → Constant.isNameByte (UInt8.ofFin c) = true := by
    decide +kernel
  by_cases below : b.toNat < 128
  · have point := (h.mem mem).resolve_right (Nat.not_le.mpr below)
    have known := small ⟨b.toNat, below⟩ point
    rw [Utf8.toUInt8_toNat] at known
    exact known
  · have known := large b.toFin (Nat.not_lt.mp below)
    rw [UInt8.ofFin_toFin] at known
    exact known

/-- The first byte of a name is a character that can begin one, or a byte from 128 on. -/
theorem IsIdentifier.exists_cons {name : Bytes} (h : IsIdentifier name) :
    ∃ b rest, name = b :: rest ∧
      (Constant.Lexeme.isNameStart b.toNat = true ∨ 128 ≤ b.toNat) := by
  obtain ⟨first, rest, rfl, start, -⟩ := h.spelled
  obtain ⟨b, more, eq⟩ := List.exists_cons_of_ne_nil (Utf8.encode_ne_nil first.toNat)
  refine ⟨b, _, by rw [List.flatMap_cons, eq, List.cons_append], ?_⟩
  have inside : b ∈ Utf8.encode first.toNat := by
    rw [eq]
    exact List.mem_cons_self
  rcases Utf8.mem_encode first.valid inside with same | large
  · left
    rw [same]
    exact start
  · exact Or.inr large

open Constant.Lexeme in
/-- Characters below 128 are bytes, so that a name can be given by its bytes. -/
theorem IsIdentifier.of_small {first : UInt8} {rest : Bytes}
    (small : ∀ b ∈ first :: rest, b.toNat < 128) (start : isNameStart first.toNat = true)
    (others : ∀ b ∈ rest, isNamePoint b.toNat = true)
    (not_keyword : first :: rest ∉ keywords.map Prod.fst)
    (not_refused : first :: rest ∉ refusedWords) : IsIdentifier (first :: rest) where
  spelled := by
    let point (b : UInt8) : Char := Char.ofNat b.toNat
    have code : ∀ b ∈ first :: rest, (point b).toNat = b.toNat := by
      intro b mem
      have valid : b.toNat.isValidChar := Or.inl (Nat.lt_trans (small b mem) (by decide))
      show (Char.ofNat b.toNat).toNat = _
      rw [Char.ofNat, dif_pos valid]
      rfl
    have bytes : ∀ b ∈ first :: rest, Utf8.encode (point b).toNat = [b] := by
      intro b mem
      rw [code b mem, Utf8.encode, if_pos (small b mem), Utf8.toUInt8_toNat]
    refine ⟨point first, rest.map point, ?_, ?_, ?_⟩
    · rw [← List.map_cons, List.flatMap_map, List.flatMap_congr bytes, List.flatMap_singleton']
    · rw [code first List.mem_cons_self]
      exact start
    · rw [List.forall_mem_map]
      intro b mem
      rw [code b (List.mem_cons_of_mem first mem)]
      exact others b mem
  not_keyword := not_keyword
  not_refused := not_refused

end Rpn
