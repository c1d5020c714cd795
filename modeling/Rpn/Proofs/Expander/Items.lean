import Rpn.Constant.Interpreter
import Rpn.Proofs.Expander.Passes
import Rpn.Proofs.Literal

/-!
# Expressions item by item

An expression is items with delimiters between: plain words, quoted characters and constant
expressions.  Although three passes go over the whole expression, what becomes of an item depends
on nothing but the item and the equates.

* `Expander.Separates` — the bytes that can stand between items;
* `Expander.Item` — an item as it is written, and the text that it stands for;
* `Expander.Item.resolved` — what the first two passes make of an item, whatever follows it;
* `Expander.expand_items` — an expression is expanded item by item.
-/

namespace Rpn

namespace Expander

/-- The bytes that can stand between items: any ASCII byte that is no part of a number, of a quoted
character or of a constant expression. -/
structure Separates (delimiter : UInt8) : Prop where
  ascii : delimiter < 128
  not_nul : delimiter ≠ 0
  not_digit : isDigit delimiter = false
  not_minus : delimiter ≠ 45
  not_quote : delimiter ≠ 39
  not_dollar : delimiter ≠ 36
  not_opening : delimiter ≠ 40
  not_closing : delimiter ≠ 41

/-- The letters behind a backslash, and the bytes that they stand for. -/
def escapes : List (UInt8 × UInt8) :=
  [(92, 92), (110, 10), (114, 13), (116, 9), (48, 0), (101, 27)]

/-- An item as it is written, and the text that it stands for. -/
inductive Item [Constant.Language] (equates : Table Bytes Bytes) (delimiter : UInt8) :
    Bytes → Bytes → Prop
  | word {text : Bytes} :
      text ≠ [] → delimiter ∉ text → 0 ∉ text → 39 ∉ text → ¬ [36, 40] <:+: text →
      Item equates delimiter text text
  | character {c : UInt8} :
      c < 128 → c ≠ 39 → c ≠ 92 → Item equates delimiter [39, c, 39] (decimal c.toNat)
  | escaped {letter c : UInt8} :
      (letter, c) ∈ escapes → Item equates delimiter [39, 92, letter, 39] (decimal c.toNat)
  | constant {inside : Bytes} {value : Int32} :
      39 ∉ inside → NestedOnce inside → evaluate equates inside = .ok value →
      Item equates delimiter (36 :: 40 :: inside ++ [41]) (decimal value.toInt)

/-! ## Quoted characters -/

theorem width_of_ascii {c : UInt8} (h : c < 128) (rest : Bytes) : Utf8.width (c :: rest) = 1 := by
  simp only [Utf8.width, Utf8.decode, if_pos h]

theorem closedPoint?_of_ascii {c : UInt8} (h : c < 128) (ne : c ≠ 39) (rest : Bytes) :
    closedPoint? (c :: 39 :: rest) = some 2 := by
  simp [closedPoint?, width_of_ascii h, ne]

theorem resolveQuotes_character {c : UInt8} (h : c < 128) (ne : c ≠ 39) (ne' : c ≠ 92)
    (rest : Bytes) :
    resolveQuotes ([39, c, 39] ++ rest) = decimal c.toNat ++ resolveQuotes rest := by
  have matched : quoteMatch? ([39, c, 39] ++ rest) = some 3 := by
    simp [quoteMatch?, ne', closedPoint?_of_ascii h ne]
  have number : quotedNumber [39, c, 39] = decimal c.toNat := by
    simp [quotedNumber, quotedByte?, ne']
  rw [resolveQuotes_hit (List.cons_ne_nil _ _) rest matched, number]

theorem resolveQuotes_escaped {letter c : UInt8} (h : (letter, c) ∈ escapes) (rest : Bytes) :
    resolveQuotes ([39, 92, letter, 39] ++ rest) = decimal c.toNat ++ resolveQuotes rest := by
  have all : (escapes.all fun entry =>
      entry.1 < 128 ∧ entry.1 ≠ 39 ∧ escape? entry.1 = some entry.2) = true := by decide
  obtain ⟨small, ne, meaning⟩ := of_decide_eq_true (List.all_eq_true.mp all _ h)
  have matched : quoteMatch? ([39, 92, letter, 39] ++ rest) = some 4 := by
    simp [quoteMatch?, closedPoint?_of_ascii small ne]
  have number : quotedNumber [39, 92, letter, 39] = decimal c.toNat := by
    simp [quotedNumber, quotedByte?, meaning]
  rw [resolveQuotes_hit (List.cons_ne_nil _ _) rest matched, number]

/-! ## Items -/

section Language

variable [Constant.Language] {equates : Table Bytes Bytes} {delimiter : UInt8}
  {source text : Bytes}

theorem foldConstants_decimal (n : Int) {rest : Bytes} (next : rest.head? ≠ some 40) :
    foldConstants equates (decimal n ++ rest) =
      (foldConstants equates rest).map (decimal n ++ ·) := by
  refine foldConstants_append ?_ next
  intro inside
  have dollar : (36 : UInt8) ∈ decimal n := inside.mem (by simp)
  exact Literal.not_mem_decimal (by decide) (by decide) n dollar

/-- What the first two passes make of an item, whatever follows it. -/
theorem Item.resolved (h : Item equates delimiter source text) :
    ∃ middle, (∀ rest, resolveQuotes (source ++ rest) = middle ++ resolveQuotes rest) ∧
      ∀ rest, rest.head? ≠ some 40 →
        foldConstants equates (middle ++ rest) = (foldConstants equates rest).map (text ++ ·) := by
  cases h with
  | word _ _ _ noQuote noConstant =>
    exact ⟨source, resolveQuotes_append noQuote, fun rest => foldConstants_append noConstant⟩
  | character small ne ne' =>
    exact ⟨_, resolveQuotes_character small ne ne', fun rest => foldConstants_decimal _⟩
  | escaped entry =>
    exact ⟨_, resolveQuotes_escaped entry, fun rest => foldConstants_decimal _⟩
  | @constant inside value noQuote nested found =>
    refine ⟨36 :: 40 :: inside ++ [41], resolveQuotes_append (by simp [noQuote]), ?_⟩
    intro rest _
    have split : (36 :: 40 :: inside ++ [41]) ++ rest = 36 :: 40 :: inside ++ 41 :: rest := by simp
    rw [split]
    exact foldConstants_constant nested found rest

theorem Item.isToken (h : Item equates delimiter source text) (separates : Separates delimiter) :
    IsToken delimiter text := by
  have number : ∀ n, IsToken delimiter (decimal n) := fun n =>
    ⟨Literal.decimal_ne_nil n, Literal.not_mem_decimal separates.not_digit separates.not_minus n,
      Literal.not_mem_decimal (by decide) (by decide) n⟩
  cases h with
  | word nonempty noDelimiter noNul _ _ => exact ⟨nonempty, noDelimiter, noNul⟩
  | character _ _ _ => exact number _
  | escaped _ => exact number _
  | constant _ _ _ => exact number _

theorem foldConstants_delimiter (separates : Separates delimiter) (rest : Bytes) :
    foldConstants equates (delimiter :: rest) =
      (foldConstants equates rest).map (delimiter :: ·) := by
  have none := constantMatch?_of_ne separates.not_dollar rest
  have kept : foldPiece equates (.byte delimiter) = .ok [delimiter] := rfl
  rw [foldConstants, pieces_cons none, mapM_foldPiece_cons kept, foldConstants]
  rfl

/-- Behind an item and a delimiter the first two passes begin anew. -/
theorem Item.foldConstants_resolveQuotes (h : Item equates delimiter source text)
    (separates : Separates delimiter) (rest : Bytes) :
    foldConstants equates (resolveQuotes (source ++ delimiter :: rest)) =
      (foldConstants equates (resolveQuotes rest)).map (text ++ delimiter :: ·) := by
  obtain ⟨middle, resolve, fold⟩ := h.resolved
  have quotes : resolveQuotes ([delimiter] ++ rest) = [delimiter] ++ resolveQuotes rest :=
    resolveQuotes_append (by simp [separates.not_quote.symm]) rest
  simp only [List.singleton_append] at quotes
  have next : (delimiter :: resolveQuotes rest).head? ≠ some 40 := by
    simp [separates.not_opening]
  rw [resolve, quotes, fold _ next, foldConstants_delimiter separates]
  cases foldConstants equates (resolveQuotes rest) <;> rfl

theorem Item.foldConstants_resolveQuotes_last (h : Item equates delimiter source text) :
    foldConstants equates (resolveQuotes source) = .ok text := by
  obtain ⟨middle, resolve, fold⟩ := h.resolved
  have quotes := resolve []
  have constants := fold [] (by simp)
  simp only [List.append_nil, resolveQuotes_nil, foldConstants_nil] at quotes constants
  rw [quotes, constants]
  simp [Except.map]

/-- The first two passes make of joined items the joined texts that they stand for. -/
theorem foldConstants_resolveQuotes_items (separates : Separates delimiter)
    {items : List (Bytes × Bytes)} (h : ∀ item ∈ items, Item equates delimiter item.1 item.2) :
    foldConstants equates (resolveQuotes ([delimiter].intercalate (items.map Prod.fst))) =
      .ok ([delimiter].intercalate (items.map Prod.snd)) := by
  induction items with
  | nil => rfl
  | cons item items ih =>
    have first := h item List.mem_cons_self
    have others := ih fun item' mem => h item' (List.mem_cons_of_mem item mem)
    cases items with
    | nil =>
      simp only [List.map_cons, List.map_nil, List.intercalate_singleton]
      exact first.foldConstants_resolveQuotes_last
    | cons next items =>
      simp only [List.map_cons, List.intercalate_cons_cons, List.append_assoc,
        List.singleton_append] at others ⊢
      rw [first.foldConstants_resolveQuotes separates, others]
      rfl

/-- **An expression is expanded item by item.**  Each item becomes the text of the equate that the
item's text names, and the item's text where it names none; the texts of equates are not expanded
again. -/
theorem expand_items (ex : Expander) (equated : ex.equates = some equates)
    (separates : Separates delimiter) {items : List (Bytes × Bytes)}
    (h : ∀ item ∈ items, Item equates delimiter item.1 item.2) :
    ex.expand delimiter ([delimiter].intercalate (items.map Prod.fst)) =
      (ex, .ok ([delimiter].intercalate
        (items.map fun item => equates[item.2]?.getD item.2))) := by
  have ready : ex.ready = ex := by simp [ready, equated]
  have table : ex.table = equates := by simp [table, equated]
  have effective : effectiveDelimiter delimiter = delimiter := if_neg separates.not_nul
  have small : delimiter.toNat < 128 := separates.ascii
  have encoded : Utf8.encode delimiter.toNat = [delimiter] := by
    rw [Utf8.encode, if_pos small]
    simp
  have words : ∀ word ∈ items.map Prod.snd, IsToken (effectiveDelimiter delimiter) word := by
    intro word mem
    obtain ⟨item, within, rfl⟩ := List.mem_map.mp mem
    rw [effective]
    exact (h item within).isToken separates
  have tokens := tokens_intercalate delimiter words
  rw [effective] at tokens
  rw [expand, ready, table, expandWith, foldConstants_resolveQuotes_items separates h]
  show (ex, Except.ok (substitute equates delimiter _)) = _
  rw [substitute, effective, encoded, tokens, List.map_map]
  rfl

end Language

attribute [local instance] Constant.interpreter

/-- A comma in quotes is no delimiter, and the text of an equate is not expanded again. -/
theorem expand_items_of_four :
    let equates : Table Bytes Bytes := Std.ExtTreeMap.ofList
      [(ascii "SIZE", ascii "8,SIZE"), (ascii "44", ascii "eax")]
    let items := [(ascii "','", ascii "44"), (ascii "SIZE", ascii "SIZE"),
      (ascii "$(2*(3+4))", ascii "14"), (ascii "'\\n'", ascii "10")]
    (∀ item ∈ items, Item equates 44 item.1 item.2) ∧
      ({ equates := some equates } : Expander).expand 44 (ascii "',',SIZE,$(2*(3+4)),'\\n'") =
        ({ equates := some equates }, .ok (ascii "eax,8,SIZE,14,10")) := by
  intro equates items
  have comma : Item equates 44 (ascii "','") (ascii "44") :=
    .character (by decide) (by decide) (by decide)
  have size : Item equates 44 (ascii "SIZE") (ascii "SIZE") :=
    .word (by decide) (by decide) (by decide) (by decide) (by decide)
  have product : Item equates 44 (36 :: 40 :: ascii "2*(3+4)" ++ [41])
      (decimal (14 : Int32).toInt) :=
    .constant (by decide) (by decide) (by decide +kernel)
  have newline : (110, 10) ∈ escapes := by decide
  have h : ∀ item ∈ items, Item equates 44 item.1 item.2 := by
    intro item mem
    simp only [items, List.mem_cons, List.not_mem_nil, or_false] at mem
    rcases mem with rfl | rfl | rfl | rfl
    · exact comma
    · exact size
    · exact product
    · exact .escaped newline
  refine ⟨h, ?_⟩
  have expanded := expand_items { equates := some equates } rfl
    ⟨by decide, by decide, by decide, by decide, by decide, by decide, by decide, by decide⟩ h
  have text : [(44 : UInt8)].intercalate (items.map Prod.fst) =
      ascii "',',SIZE,$(2*(3+4)),'\\n'" := by decide
  rw [text] at expanded
  rw [expanded]
  rfl

end Expander

end Rpn
