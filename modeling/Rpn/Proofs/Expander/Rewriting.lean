import Rpn.Proofs.Expander.Language

/-!
# What the two patterns replace

The first two passes of the expander replace the leftmost matches of their patterns that do not
overlap, and keep all other bytes.  Here this is told by places in the text, and with checked
accesses, so that nothing is read outside of a match.

* `Expander.slice?` and `Expander.quotedNumber?` — a slice of a text, and what becomes of a quoted
  character, which are `none` where an access is out of range;
* `Expander.Leftmost` — the leftmost matches from a place on, and `Divided.leftmost_iff`, that
  a text divided from the left has no other;
* `Expander.Rewritten` — a text whose matches are replaced and whose other bytes are kept;
* `Expander.rewriting_unambiguous` — the passes rewrite in one way, and within range.
-/

namespace Rpn.Expander

variable {text front rest hit : Bytes} {first last place : Nat}

/-! ## Checked accesses -/

/-- The bytes of a text from one place up to another, if the text reaches that far. -/
def slice? (text : Bytes) (first last : Nat) : Option Bytes :=
  if first ≤ last ∧ last ≤ text.length then some (text.extract first last) else none

/-- What a text behind a backslash stands for. -/
def escaped? : Bytes → Option Bytes
  | [letter] => (escape? letter).map ([·])
  | _ => none

/-- What becomes of a quoted character, where every access to its bytes is checked. -/
def quotedNumber? (word : Bytes) : Option Bytes := do
  let inside ← slice? word 1 (word.length - 1)
  let first ← inside[0]?
  let meant ←
    if first = 92 then (slice? inside 1 inside.length).map escaped?
    else some (if inside.length = 1 then some inside else none)
  match meant with
  | none => some word
  | some byte => byte[0]?.map fun b => decimal b.toNat

theorem slice?_eq_some_iff :
    slice? text first last = some hit ↔ ∃ front rest, text = front ++ (hit ++ rest) ∧
      front.length = first ∧ first + hit.length = last := by
  rw [slice?, Option.ite_none_right_eq_some, Option.some.injEq, List.extract_eq_take_drop]
  constructor
  · rintro ⟨⟨le, bound⟩, rfl⟩
    refine ⟨text.take first, (text.drop first).drop (last - first), ?_, ?_, ?_⟩
    · rw [List.take_append_drop, List.take_append_drop]
    · rw [List.length_take]
      omega
    · rw [List.length_take, List.length_drop]
      omega
  · rintro ⟨front, rest, rfl, rfl, rfl⟩
    refine ⟨⟨Nat.le_add_right _ _, ?_⟩, ?_⟩
    · rw [List.length_append, List.length_append]
      omega
    · rw [List.drop_left, Nat.add_sub_cancel_left, List.take_left]

theorem slice?_append (front hit rest : Bytes) :
    slice? (front ++ (hit ++ rest)) front.length (front.length + hit.length) = some hit :=
  slice?_eq_some_iff.mpr ⟨front, rest, rfl, rfl, rfl⟩

/-- The inside of a text behind some bytes and in front of the last. -/
theorem slice?_inside (opening inside : Bytes) (closing : UInt8) :
    slice? (opening ++ (inside ++ [closing])) opening.length
      ((opening ++ (inside ++ [closing])).length - 1) = some inside := by
  have last : (opening ++ (inside ++ [closing])).length - 1 = opening.length + inside.length := by
    simp only [List.length_append, List.length_singleton]
    omega
  rw [last, slice?_append]

/-- Behind the first byte of a text the others are in range. -/
theorem slice?_tail (b : UInt8) (more : Bytes) :
    slice? (b :: more) 1 (b :: more).length = some more :=
  slice?_eq_some_iff.mpr ⟨[b], [], by simp, rfl, by rw [List.length_cons, Nat.add_comm]⟩

/-- Between two bytes, and with something there, all accesses are in range. -/
theorem quotedNumber?_eq {inside : Bytes} (ne : inside ≠ []) (opening closing : UInt8) :
    quotedNumber? (opening :: (inside ++ [closing])) =
      some (quotedNumber (opening :: (inside ++ [closing]))) := by
  obtain ⟨b, more, rfl⟩ := List.exists_cons_of_ne_nil ne
  have inner : ((opening :: (b :: more ++ [closing])).drop 1).dropLast = b :: more := by
    rw [List.drop_one, List.tail_cons, List.dropLast_concat]
  have sliced : slice? (opening :: (b :: more ++ [closing])) 1
      ((opening :: (b :: more ++ [closing])).length - 1) = some (b :: more) :=
    slice?_inside [opening] (b :: more) closing
  rw [quotedNumber?, quotedNumber, inner, sliced]
  by_cases slash : b = 92
  · subst slash
    have tail := slice?_tail 92 more
    obtain _ | ⟨letter, _ | ⟨c, others⟩⟩ := more
    · rfl
    · simp only [Option.bind_eq_bind, Option.bind_some, List.getElem?_cons_zero, if_true, tail,
        Option.map_some, escaped?, quotedByte?]
      cases escape? letter <;> rfl
    · simp only [Option.bind_eq_bind, Option.bind_some, List.getElem?_cons_zero, if_true, tail,
        Option.map_some, escaped?, quotedByte?]
  · obtain _ | ⟨c, others⟩ := more
    · simp [slash, quotedByte?]
    · cases others <;> simp [slash, quotedByte?]

/-- What becomes of a quoted character is itself, or the number of a byte. -/
theorem quotedNumber_eq (word : Bytes) :
    quotedNumber word = word ∨ ∃ b : UInt8, quotedNumber word = decimal b.toNat := by
  unfold quotedNumber
  cases quotedByte? ((word.drop 1).dropLast) with
  | none => exact Or.inl rfl
  | some b => exact Or.inr ⟨b, rfl⟩

/-- What a quoted character becomes is found within it. -/
theorem quotedNumber?_of_matches (isMatch : Matches quotedLanguage hit) :
    quotedNumber? hit = some (quotedNumber hit) := by
  obtain ⟨chunk, point, single, -, rfl | rfl⟩ := matches_quoted_iff.mp isMatch
  · exact quotedNumber?_eq (ne_nil_of_points single) 39 39
  · exact quotedNumber?_eq (List.cons_ne_nil 92 chunk) 39 39

/-- The inside of a constant expression is found within it. -/
theorem slice?_of_matches (isMatch : Matches constantLanguage hit) :
    slice? hit 2 (hit.length - 1) = some ((hit.drop 2).dropLast) := by
  obtain ⟨inside, -, rfl⟩ := matches_constant_iff.mp isMatch
  rw [dropLast_constantText]
  exact slice?_inside [36, 40] inside 41

/-! ## Places of matches -/

/-- A match stands in a text from one place up to another. -/
def MatchesAt (Match : Bytes → Prop) (text : Bytes) (first last : Nat) : Prop :=
  ∃ hit, slice? text first last = some hit ∧ Match hit

/-- The leftmost matches from a place on that do not overlap: every match from there on is one of
them or begins inside of one. -/
structure Leftmost (Match : Bytes → Prop) (text : Bytes) (place : Nat)
    (spans : List (Nat × Nat)) : Prop where
  isMatch : ∀ span ∈ spans, MatchesAt Match text span.1 span.2
  behind : ∀ span ∈ spans, place ≤ span.1
  ordered : spans.Pairwise fun span next => span.2 ≤ next.1
  covered : ∀ first last, place ≤ first → MatchesAt Match text first last →
    ∃ span ∈ spans, span.1 ≤ first ∧ first < span.2

/-- Where the matches among the parts of a text stand, the first part at a given place. -/
def spansFrom : Nat → List Piece → List (Nat × Nat)
  | _, [] => []
  | place, .byte _ :: parts => spansFrom (place + 1) parts
  | place, .hit text :: parts =>
    (place, place + text.length) :: spansFrom (place + text.length) parts

section Spans

variable {pattern : Bytes → Option Nat} {Match : Bytes → Prop} {parts : List Piece}
  {spans : List (Nat × Nat)}

theorem matchesAt_append_iff :
    MatchesAt Match (front ++ rest) front.length last ↔
      ∃ hit more, rest = hit ++ more ∧ Match hit ∧ front.length + hit.length = last := by
  constructor
  · rintro ⟨hit, sliced, isMatch⟩
    obtain ⟨front', more, same, length, rfl⟩ := slice?_eq_some_iff.mp sliced
    obtain ⟨rfl, rfl⟩ := List.append_inj same length.symm
    exact ⟨hit, more, rfl, isMatch, rfl⟩
  · rintro ⟨hit, more, rfl, isMatch, rfl⟩
    exact ⟨hit, slice?_append front hit more, isMatch⟩

theorem MatchesAt.split (h : MatchesAt Match text first last) :
    ∃ front rest, text = front ++ rest ∧ front.length = first := by
  obtain ⟨hit, sliced, -⟩ := h
  obtain ⟨front, rest, rfl, length, -⟩ := slice?_eq_some_iff.mp sliced
  exact ⟨front, hit ++ rest, rfl, length⟩

/-- **At a place at most one match begins.** -/
theorem MatchesAt.unique (recognizes : Recognizes pattern Match) {last' : Nat}
    (h : MatchesAt Match text first last) (h' : MatchesAt Match text first last') :
    last = last' := by
  obtain ⟨front, rest, rfl, rfl⟩ := h.split
  obtain ⟨hit, more, same, isMatch, rfl⟩ := matchesAt_append_iff.mp h
  obtain ⟨hit', more', same', isMatch', rfl⟩ := matchesAt_append_iff.mp h'
  rw [recognizes.unique isMatch isMatch' (same.symm.trans same')]

theorem MatchesAt.lt (recognizes : Recognizes pattern Match)
    (h : MatchesAt Match text first last) : first < last ∧ last ≤ text.length := by
  obtain ⟨front, rest, rfl, rfl⟩ := h.split
  obtain ⟨hit, more, rfl, isMatch, rfl⟩ := matchesAt_append_iff.mp h
  have pos := List.length_pos_iff.mpr (recognizes.ne_nil isMatch)
  simp only [List.length_append]
  omega

/-- No match begins at the end of a text. -/
theorem leftmost_length_iff (recognizes : Recognizes pattern Match) :
    Leftmost Match text text.length spans ↔ spans = [] := by
  constructor
  · intro h
    rw [List.eq_nil_iff_forall_not_mem]
    intro span mem
    have bounds := (h.isMatch span mem).lt recognizes
    have behind := h.behind span mem
    omega
  · rintro rfl
    refine ⟨nofun, nofun, .nil, fun first last ge isMatch => ?_⟩
    have bounds := isMatch.lt recognizes
    omega

/-- Where no match begins at a place, the leftmost matches are those behind it. -/
theorem leftmost_succ_iff (none : ∀ last, ¬ MatchesAt Match text place last) :
    Leftmost Match text place spans ↔ Leftmost Match text (place + 1) spans := by
  constructor
  · intro h
    refine ⟨h.isMatch, fun span mem => ?_, h.ordered, fun first last ge => ?_⟩
    · have other : span.1 ≠ place := fun same => none span.2 (same ▸ h.isMatch span mem)
      have behind := h.behind span mem
      omega
    · exact h.covered first last (by omega)
  · intro h
    refine ⟨h.isMatch, fun span mem => ?_, h.ordered, fun first last ge isMatch => ?_⟩
    · have behind := h.behind span mem
      omega
    · have other : first ≠ place := fun same => none last (same ▸ isMatch)
      exact h.covered first last (by omega) isMatch

/-- Where a match begins at a place, it is the first of the leftmost matches, and the others are those
behind it. -/
theorem leftmost_of_matchesAt_iff (recognizes : Recognizes pattern Match)
    (here : MatchesAt Match text place last) :
    Leftmost Match text place spans ↔
      ∃ others, spans = (place, last) :: others ∧ Leftmost Match text last others := by
  have lt := (here.lt recognizes).1
  constructor
  · intro h
    obtain ⟨span, mem, le, bound⟩ := h.covered place last (Nat.le_refl _) here
    cases spans with
    | nil => cases mem
    | cons next others =>
      have ordered := List.pairwise_cons.mp h.ordered
      have nextLt := ((h.isMatch next List.mem_cons_self).lt recognizes).1
      have nextBehind := h.behind next List.mem_cons_self
      -- a later span begins behind the end of the first, which is behind the place
      have isFirst : span = next := by
        rcases List.mem_cons.mp mem with same | later
        · exact same
        · have apart := ordered.1 span later
          omega
      subst isFirst
      have begin' : span.1 = place := Nat.le_antisymm le nextBehind
      have end' : span.2 = last := by
        have isMatch := h.isMatch span List.mem_cons_self
        rw [begin'] at isMatch
        exact isMatch.unique recognizes here
      refine ⟨others, by rw [← begin', ← end'], ?_, ?_, ordered.2, ?_⟩
      · exact fun other among => h.isMatch other (List.mem_cons_of_mem _ among)
      · rw [← end']
        exact ordered.1
      · intro first last' ge isMatch
        obtain ⟨other, among, starts, ends⟩ := h.covered first last' (by omega) isMatch
        rcases List.mem_cons.mp among with rfl | later
        · omega
        · exact ⟨other, later, starts, ends⟩
  · rintro ⟨others, rfl, h⟩
    refine ⟨?_, ?_, ?_, ?_⟩
    · exact List.forall_mem_cons.mpr ⟨here, h.isMatch⟩
    · refine List.forall_mem_cons.mpr ⟨Nat.le_refl _, fun other among => ?_⟩
      have behind := h.behind other among
      omega
    · exact List.pairwise_cons.mpr ⟨h.behind, h.ordered⟩
    · intro first last' ge isMatch
      by_cases within : first < last
      · exact ⟨(place, last), List.mem_cons_self, ge, within⟩
      · obtain ⟨other, among, covers⟩ := h.covered first last' (by omega) isMatch
        exact ⟨other, List.mem_cons_of_mem _ among, covers⟩

/-- The matches of a text divided from the left are the leftmost ones, and there are no other such. -/
theorem Divided.leftmost_iff (recognizes : Recognizes pattern Match)
    (divided : Divided Match rest parts) (front : Bytes) :
    Leftmost Match (front ++ rest) front.length spans ↔ spans = spansFrom front.length parts := by
  induction divided generalizing front spans with
  | nil =>
    rw [List.append_nil]
    exact leftmost_length_iff recognizes
  | @byte b rest parts noMatch _ ih =>
    have none : ∀ last, ¬ MatchesAt Match (front ++ b :: rest) front.length last := by
      intro last isMatch
      obtain ⟨hit, more, same, found, -⟩ := matchesAt_append_iff.mp isMatch
      exact noMatch hit ⟨more, same.symm⟩ found
    have behind := @ih spans (front ++ [b])
    rw [List.append_assoc, List.singleton_append, List.length_append, List.length_singleton]
      at behind
    rw [leftmost_succ_iff none, behind, spansFrom]
  | @hit hit rest parts isMatch _ ih =>
    have here : MatchesAt Match (front ++ (hit ++ rest)) front.length
        (front.length + hit.length) := ⟨hit, slice?_append front hit rest, isMatch⟩
    rw [leftmost_of_matchesAt_iff recognizes here, spansFrom]
    constructor
    · rintro ⟨others, rfl, behind⟩
      rw [← List.append_assoc, ← List.length_append] at behind
      rw [(ih _).mp behind, List.length_append]
    · rintro rfl
      refine ⟨_, rfl, ?_⟩
      rw [← List.append_assoc, ← List.length_append]
      exact (ih _).mpr rfl

/-- The parts of a text whose matches are its leftmost ones. -/
structure Parted (Match : Bytes → Prop) (text : Bytes) (parts : List Piece) : Prop where
  whole : parts.flatMap Piece.text = text
  leftmost : ∀ spans, Leftmost Match text 0 spans ↔ spans = spansFrom 0 parts

theorem Recognizes.parted (recognizes : Recognizes pattern Match) (text : Bytes) :
    Parted Match text (pieces pattern text) where
  whole := flatten_pieces pattern (fun _ _ => recognizes.pos) text
  leftmost _ := (recognizes.divided_iff.mpr rfl).leftmost_iff recognizes []

theorem Divided.isMatch (divided : Divided Match text parts) (mem : .hit hit ∈ parts) :
    Match hit := by
  induction divided with
  | nil => cases mem
  | byte _ _ ih =>
    rcases List.mem_cons.mp mem with impossible | later
    · cases impossible
    · exact ih later
  | hit isMatch _ ih =>
    rcases List.mem_cons.mp mem with same | later
    · cases same
      exact isMatch
    · exact ih later

theorem Recognizes.isMatch (recognizes : Recognizes pattern Match)
    (mem : .hit hit ∈ pieces pattern text) : Match hit :=
  (recognizes.divided_iff.mpr rfl : Divided Match text _).isMatch mem

end Spans

/-! ## Rewriting -/

/-- A text whose matches are replaced, and whose other bytes are kept in order. -/
inductive Rewritten (Replaced : Bytes → Bytes → Prop) : List Piece → Bytes → Prop
  | nil : Rewritten Replaced [] []
  | byte {b : UInt8} {parts : List Piece} {out : Bytes} :
      Rewritten Replaced parts out → Rewritten Replaced (.byte b :: parts) (b :: out)
  | hit {hit new out : Bytes} {parts : List Piece} :
      Replaced hit new → Rewritten Replaced parts out →
      Rewritten Replaced (.hit hit :: parts) (new ++ out)

/-- A quoted character is replaced by what the checked accesses find. -/
def QuoteReplaced (hit new : Bytes) : Prop :=
  quotedNumber? hit = some new

section Passes

variable {equates : Table Bytes Bytes} {parts : List Piece} {out : Bytes}

/-- What the pass over quoted characters makes of a text. -/
theorem resolveQuotes_eq_iff :
    resolveQuotes text = out ↔ Rewritten QuoteReplaced (pieces quoteMatch? text) out := by
  have isMatch : ∀ hit, .hit hit ∈ pieces quoteMatch? text → Matches quotedLanguage hit :=
    fun hit => quoteMatch?_recognizes.isMatch
  rw [resolveQuotes]
  generalize pieces quoteMatch? text = parts at isMatch
  induction parts generalizing out with
  | nil =>
    constructor
    · rintro rfl
      exact .nil
    · rintro ⟨⟩
      rfl
  | cons part parts ih =>
    have others := fun hit among => isMatch hit (List.mem_cons_of_mem _ among)
    rw [List.flatMap_cons]
    cases part with
    | byte b =>
      constructor
      · rintro rfl
        exact .byte ((ih others).mp rfl)
      · intro rewritten
        cases rewritten with
        | byte rest =>
          rw [(ih others).mpr rest]
          rfl
    | hit hit =>
      have found := quotedNumber?_of_matches (isMatch hit List.mem_cons_self)
      constructor
      · rintro rfl
        exact .hit found ((ih others).mp rfl)
      · intro rewritten
        cases rewritten with
        | hit replaced rest =>
          obtain rfl := Option.some.inj (found.symm.trans replaced)
          rw [(ih others).mpr rest]

variable [Constant.Language]

/-- A constant expression is replaced by the value of its inside, found by a checked access. -/
def ConstantReplaced (equates : Table Bytes Bytes) (hit new : Bytes) : Prop :=
  ∃ inside v, slice? hit 2 (hit.length - 1) = some inside ∧ evaluate equates inside = .ok v ∧
    new = decimal v.toInt

/-- What the pass over constant expressions makes of a text, if all of them have a value. -/
theorem foldConstants_eq_ok_iff :
    foldConstants equates text = .ok out ↔
      Rewritten (ConstantReplaced equates) (pieces constantMatch? text) out := by
  have isMatch : ∀ hit, .hit hit ∈ pieces constantMatch? text → Matches constantLanguage hit :=
    fun hit => constantMatch?_recognizes_language.isMatch
  rw [foldConstants]
  generalize pieces constantMatch? text = parts at isMatch
  induction parts generalizing out with
  | nil =>
    constructor
    · rintro ⟨⟩
      exact .nil
    · rintro ⟨⟩
      rfl
  | cons part parts ih =>
    have others := fun hit among => isMatch hit (List.mem_cons_of_mem _ among)
    cases part with
    | byte b =>
      have kept : foldPiece equates (.byte b) = .ok [b] := rfl
      rw [mapM_foldPiece_cons kept, map_eq_ok_iff]
      constructor
      · rintro ⟨rest, folded, rfl⟩
        exact .byte ((ih others).mp folded)
      · intro rewritten
        cases rewritten with
        | byte rest => exact ⟨_, (ih others).mpr rest, rfl⟩
    | hit hit =>
      have inside := slice?_of_matches (isMatch hit List.mem_cons_self)
      constructor
      · intro folded
        cases value : evaluate equates ((hit.drop 2).dropLast) with
        | error e =>
          have failed : foldPiece equates (.hit hit) = .error e := by
            rw [foldPiece, value]
            rfl
          rw [List.mapM_cons, failed] at folded
          cases folded
        | ok v =>
          rw [mapM_foldPiece_cons (foldPiece_hit value), map_eq_ok_iff] at folded
          obtain ⟨rest, folded, rfl⟩ := folded
          exact .hit ⟨_, v, inside, value, rfl⟩ ((ih others).mp folded)
      · intro rewritten
        cases rewritten with
        | hit replaced rest =>
          obtain ⟨inside', v, sliced, value, rfl⟩ := replaced
          obtain rfl := Option.some.inj (inside.symm.trans sliced)
          rw [mapM_foldPiece_cons (foldPiece_hit value), map_eq_ok_iff]
          exact ⟨_, (ih others).mpr rest, rfl⟩

/-- **The two patterns match in one way, and what replaces a match is found within it.**  From a place
of a text at most one quoted character reaches, and at most one constant expression, whatever bytes
the text holds.  So the leftmost matches that do not overlap are determined, and the passes of the
expander replace these, and keep all other bytes in order; constant expressions are replaced where
all of them have a value.  A quoted character becomes the number of a byte, or stays; and every
access to a match is in range. -/
theorem rewriting_unambiguous (equates : Table Bytes Bytes) (text : Bytes) :
    (∀ first last last', MatchesAt (Matches quotedLanguage) text first last →
      MatchesAt (Matches quotedLanguage) text first last' → last = last') ∧
    (∀ first last last', MatchesAt (Matches constantLanguage) text first last →
      MatchesAt (Matches constantLanguage) text first last' → last = last') ∧
    (∃ parts, Parted (Matches quotedLanguage) text parts ∧
      ∀ out, resolveQuotes text = out ↔ Rewritten QuoteReplaced parts out) ∧
    (∃ parts, Parted (Matches constantLanguage) text parts ∧
      ∀ out, foldConstants equates text = .ok out ↔
        Rewritten (ConstantReplaced equates) parts out) ∧
    (∀ hit, Matches quotedLanguage hit → quotedNumber? hit = some (quotedNumber hit) ∧
      (quotedNumber hit = hit ∨ ∃ b : UInt8, quotedNumber hit = decimal b.toNat)) ∧
    (∀ hit, Matches constantLanguage hit →
      slice? hit 2 (hit.length - 1) = some ((hit.drop 2).dropLast)) := by
  refine ⟨?_, ?_, ?_, ?_, ?_, ?_⟩
  · exact fun first last last' h h' => h.unique quoteMatch?_recognizes h'
  · exact fun first last last' h h' => h.unique constantMatch?_recognizes_language h'
  · exact ⟨_, quoteMatch?_recognizes.parted text, fun out => resolveQuotes_eq_iff⟩
  · exact ⟨_, constantMatch?_recognizes_language.parted text, fun out => foldConstants_eq_ok_iff⟩
  · exact fun hit isMatch => ⟨quotedNumber?_of_matches isMatch, quotedNumber_eq hit⟩
  · exact fun hit isMatch => slice?_of_matches isMatch

end Passes

attribute [local instance] Constant.interpreter

/-- A quoted backslash ends at the quote behind it, though another quote follows, and stays; a byte
that is no code point is a quoted character. -/
theorem rewriting_unambiguous_of_backslash :
    let text : Bytes := [39, 92, 39, 39, 39, 255, 39]
    MatchesAt (Matches quotedLanguage) text 0 3 ∧
      ¬ MatchesAt (Matches quotedLanguage) text 0 4 ∧
      resolveQuotes text = [39, 92, 39, 39] ++ ascii "255" := by
  intro text
  have here : MatchesAt (Matches quotedLanguage) text 0 3 :=
    ⟨[39, 92, 39], by decide, matches_quoted_iff.mpr ⟨[92], some 92, by decide, by decide, by decide⟩⟩
  refine ⟨here, fun longer => ?_, by decide +kernel⟩
  have same := (rewriting_unambiguous ∅ text).1 0 3 4 here longer
  omega

end Rpn.Expander
