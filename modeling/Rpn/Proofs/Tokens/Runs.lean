import Mathlib.Data.List.Sort
import Rpn.Proofs.Tokens

/-!
# The maximal runs of a text

The tokens of an expression are what stands at certain places of it: the bytes from a place up to
another, none of which is the delimiter, between delimiters or the ends of the text.

* `IsRun` — two places of a text that a maximal run lies between;
* `AreRuns` — texts that are all the maximal runs of a text, from left to right, and `areRuns_iff`
  that those which the scan finds are these;
* `tokenize_maximal` — the feed and both passes of the tokenizer deliver these runs.
-/

namespace Rpn

/-- From one place of a text up to another there are bytes, none of them the delimiter, and they
reach on both sides to a delimiter or to an end of the text. -/
structure IsRun (delimiter : UInt8) (text : Bytes) (start stop : Nat) : Prop where
  nonempty : start < stop
  free : ∀ i, start ≤ i → i < stop → text[i]? ≠ some delimiter
  opened : start = 0 ∨ text[start - 1]? = some delimiter
  closed : stop = text.length ∨ text[stop]? = some delimiter

/-- Pairs of places that all maximal runs of a text lie between, from left to right. -/
structure RunPlaces (delimiter : UInt8) (text : Bytes) (places : List (Nat × Nat)) : Prop where
  ordered : places.Pairwise fun place later => place.2 < later.1
  mem_iff : ∀ place, place ∈ places ↔ IsRun delimiter text place.1 place.2

/-- What stands between two places of a text. -/
def between (text : Bytes) (place : Nat × Nat) : Bytes :=
  text.extract place.1 place.2

/-- Texts that are all the maximal runs of a text, from left to right. -/
def AreRuns (delimiter : UInt8) (text : Bytes) (found : List Bytes) : Prop :=
  ∃ places, RunPlaces delimiter text places ∧ found = places.map (between text)

variable {delimiter : UInt8} {text front rest : Bytes} {start stop : Nat}
  {places places' : List (Nat × Nat)}

/-! ## Runs in front of a delimiter and behind it -/

theorem getElem?_ne_of_not_mem (h : delimiter ∉ text) (i : Nat) : text[i]? ≠ some delimiter :=
  fun found => h (List.mem_of_getElem? found)

/-- The places of a text as a whole, unless it is empty. -/
def wholePlaces (text : Bytes) : List (Nat × Nat) :=
  if text = [] then [] else [(0, text.length)]

theorem mem_wholePlaces_iff {place : Nat × Nat} :
    place ∈ wholePlaces text ↔ place.1 = 0 ∧ place.2 = text.length ∧ 0 < text.length := by
  rw [wholePlaces, List.length_pos_iff]
  split
  · next empty => simp [empty]
  · next some => simp [some, Prod.ext_iff]

theorem ordered_wholePlaces (text : Bytes) :
    (wholePlaces text).Pairwise fun place later => place.2 < later.1 := by
  rw [wholePlaces]
  split
  · exact List.Pairwise.nil
  · exact List.pairwise_singleton _ _

theorem map_between_wholePlaces (text rest : Bytes) :
    (wholePlaces text).map (between (text ++ rest)) = consRun text [] := by
  rw [wholePlaces, consRun]
  split
  · rfl
  · simp [between]

/-- A text without a delimiter is a run, unless it is empty. -/
theorem runPlaces_of_not_mem (h : delimiter ∉ text) :
    RunPlaces delimiter text (wholePlaces text) where
  ordered := ordered_wholePlaces text
  mem_iff := by
    intro place
    rw [mem_wholePlaces_iff]
    constructor
    · rintro ⟨first, last, nonempty⟩
      refine ⟨by omega, fun i _ _ => getElem?_ne_of_not_mem h i, Or.inl first, Or.inl last⟩
    · rintro ⟨nonempty, -, opened, closed⟩
      have first := opened.resolve_right (getElem?_ne_of_not_mem h _)
      have last := closed.resolve_right (getElem?_ne_of_not_mem h _)
      exact ⟨first, last, by omega⟩

theorem getElem?_behind (front : Bytes) (b : UInt8) (rest : Bytes) (i : Nat) :
    (front ++ b :: rest)[front.length + 1 + i]? = rest[i]? := by
  rw [List.getElem?_append_right (by omega)]
  have inner : front.length + 1 + i - front.length = i + 1 := by omega
  rw [inner, List.getElem?_cons_succ]

theorem getElem?_front_ne (h : delimiter ∉ front) {i : Nat} (inside : i < front.length) :
    (front ++ delimiter :: rest)[i]? ≠ some delimiter := by
  rw [List.getElem?_append_left inside]
  exact getElem?_ne_of_not_mem h i

theorem length_append_delimiter (front : Bytes) (b : UInt8) (rest : Bytes) :
    (front ++ b :: rest).length = front.length + 1 + rest.length := by
  rw [List.length_append, List.length_cons]
  omega

/-- Behind a delimiter the runs are those of what stands there. -/
theorem isRun_behind_iff :
    IsRun delimiter (front ++ delimiter :: rest) (front.length + 1 + start)
      (front.length + 1 + stop) ↔ IsRun delimiter rest start stop := by
  have length := length_append_delimiter front delimiter rest
  constructor
  · rintro ⟨nonempty, free, opened, closed⟩
    refine ⟨by omega, ?_, ?_, ?_⟩
    · intro i after before
      rw [← getElem?_behind front delimiter]
      exact free _ (by omega) (by omega)
    · rcases Nat.eq_zero_or_pos start with first | later
      · exact Or.inl first
      · have place : front.length + 1 + start - 1 = front.length + 1 + (start - 1) := by omega
        rw [place, getElem?_behind] at opened
        exact Or.inr (opened.resolve_left (by omega))
    · rw [getElem?_behind] at closed
      exact closed.imp_left (by omega)
  · rintro ⟨nonempty, free, opened, closed⟩
    refine ⟨by omega, ?_, ?_, ?_⟩
    · intro i after before
      obtain ⟨j, rfl⟩ := Nat.exists_eq_add_of_le (Nat.le_trans (Nat.le_add_right _ start) after)
      rw [getElem?_behind]
      exact free j (by omega) (by omega)
    · right
      rcases Nat.eq_zero_or_pos start with rfl | later
      · simp
      · have place : front.length + 1 + start - 1 = front.length + 1 + (start - 1) := by omega
        rw [place, getElem?_behind]
        exact opened.resolve_left (by omega)
    · rw [getElem?_behind]
      exact closed.imp_left (by omega)

/-- In front of the first delimiter all there is is one run. -/
theorem isRun_front_iff (h : delimiter ∉ front) (before : start ≤ front.length) :
    IsRun delimiter (front ++ delimiter :: rest) start stop ↔
      start = 0 ∧ stop = front.length ∧ 0 < front.length := by
  have length := length_append_delimiter front delimiter rest
  have seam : (front ++ delimiter :: rest)[front.length]? = some delimiter := by simp
  constructor
  · rintro ⟨nonempty, free, opened, closed⟩
    have stops : stop ≤ front.length := by
      by_contra beyond
      exact free front.length before (by omega) seam
    have first := opened.resolve_right (getElem?_front_ne h (by omega))
    have last : stop = front.length := by
      by_contra other
      rcases closed with closed | closed
      · omega
      · exact getElem?_front_ne h (by omega) closed
    exact ⟨first, last, by omega⟩
  · rintro ⟨rfl, rfl, nonempty⟩
    exact ⟨nonempty, fun i _ inside => getElem?_front_ne h inside, Or.inl rfl, Or.inr seam⟩

/-! ## All runs of a text -/

theorem RunPlaces.nodup (h : RunPlaces delimiter text places) : places.Nodup := by
  refine h.ordered.imp_of_mem ?_
  rintro place later mem - apart rfl
  have nonempty := ((h.mem_iff place).mp mem).nonempty
  omega

/-- There is one list of all runs in their order. -/
theorem RunPlaces.unique (h : RunPlaces delimiter text places)
    (h' : RunPlaces delimiter text places') : places = places' := by
  have same : places.Perm places' := by
    rw [List.perm_ext_iff_of_nodup h.nodup h'.nodup]
    intro place
    rw [h.mem_iff, h'.mem_iff]
  refine List.Perm.eq_of_pairwise ?_ h.ordered h'.ordered same
  intro place later mem mem' apart apart'
  have nonempty := ((h.mem_iff place).mp mem).nonempty
  have nonempty' := ((h'.mem_iff later).mp mem').nonempty
  omega

/-- The places behind a delimiter, counted from the beginning of the text. -/
def behind (front : Bytes) (place : Nat × Nat) : Nat × Nat :=
  (front.length + 1 + place.1, front.length + 1 + place.2)

theorem between_behind (front : Bytes) (b : UInt8) (rest : Bytes) (place : Nat × Nat) :
    between (front ++ b :: rest) (behind front place) = between rest place := by
  have inner : (front ++ b :: rest).drop (front.length + 1 + place.1) = rest.drop place.1 := by
    rw [Nat.add_assoc, List.drop_length_add_append, Nat.add_comm, List.drop_succ_cons]
  have width : front.length + 1 + place.2 - (front.length + 1 + place.1) = place.2 - place.1 := by
    omega
  rw [between, behind, List.extract_eq_take_drop, inner, width, between, List.extract_eq_take_drop]

/-- The runs of a text lie in front of its first delimiter and behind it. -/
theorem RunPlaces.append (h : delimiter ∉ front) (found : RunPlaces delimiter rest places) :
    RunPlaces delimiter (front ++ delimiter :: rest)
      (wholePlaces front ++ places.map (behind front)) where
  ordered := by
    rw [List.pairwise_append, List.pairwise_map]
    refine ⟨ordered_wholePlaces front, found.ordered.imp ?_, ?_⟩
    · intro place later apart
      exact Nat.add_lt_add_left apart _
    · intro place mem later mem'
      obtain ⟨inner, -, rfl⟩ := List.mem_map.mp mem'
      have last := (mem_wholePlaces_iff.mp mem).2.1
      rw [last, behind]
      omega
  mem_iff := by
    rintro ⟨start, stop⟩
    rw [List.mem_append, List.mem_map, mem_wholePlaces_iff]
    rcases Nat.lt_or_ge front.length start with beyond | before
    · have later : ¬ (start = 0 ∧ stop = front.length ∧ 0 < front.length) := by omega
      rw [or_iff_right later]
      constructor
      · rintro ⟨place, mem, same⟩
        obtain ⟨rfl, rfl⟩ := Prod.mk.inj same
        exact isRun_behind_iff.mpr ((found.mem_iff place).mp mem)
      · intro run
        have nonempty := run.nonempty
        obtain ⟨start', rfl⟩ := Nat.exists_eq_add_of_le (show front.length + 1 ≤ start by omega)
        obtain ⟨stop', rfl⟩ := Nat.exists_eq_add_of_le (show front.length + 1 ≤ stop by omega)
        exact ⟨(start', stop'), (found.mem_iff _).mpr (isRun_behind_iff.mp run), rfl⟩
    · have earlier : ¬ ∃ place ∈ places, behind front place = (start, stop) := by
        rintro ⟨place, -, same⟩
        have first := (Prod.mk.inj same).1
        omega
      rw [or_iff_left earlier]
      exact (isRun_front_iff h before).symm

/-- The scan finds what stands at the places of the runs. -/
theorem exists_runPlaces (delimiter : UInt8) (text : Bytes) :
    ∃ places, RunPlaces delimiter text places ∧ runs delimiter text = places.map (between text) := by
  -- on the length of the text, of which the part up to the first delimiter is taken off
  induction size : text.length using Nat.strongRecOn generalizing text with
  | ind length ih =>
    by_cases divided : delimiter ∈ text
    · obtain ⟨front, rest, rfl, undivided⟩ := List.eq_append_cons_of_mem divided
      rw [length_append_delimiter] at size
      obtain ⟨places, found, same⟩ := ih rest.length (by omega) rest rfl
      refine ⟨_, found.append undivided, ?_⟩
      have later : (places.map (behind front)).map (between (front ++ delimiter :: rest)) =
          places.map (between rest) := by
        rw [List.map_map]
        exact List.map_congr_left fun place _ => between_behind front delimiter rest place
      rw [runs_append, runs_of_not_mem undivided, same, List.map_append, map_between_wholePlaces,
        later]
    · have whole := map_between_wholePlaces text []
      rw [List.append_nil] at whole
      exact ⟨_, runPlaces_of_not_mem divided, by rw [whole, runs_of_not_mem divided]⟩

/-- The scan finds all maximal runs, from left to right, and these are no others. -/
theorem areRuns_iff {found : List Bytes} :
    AreRuns delimiter text found ↔ found = runs delimiter text := by
  obtain ⟨places, all, same⟩ := exists_runPlaces delimiter text
  constructor
  · rintro ⟨places', all', rfl⟩
    rw [same, all.unique all']
  · rintro rfl
    exact ⟨places, all, same⟩

/-- **The tokens of an expression are its maximal runs.**  They are the maximal runs of bytes other than
the delimiter in front of the first NUL, from left to right, all of them and no others.  The feed
delivers them one by one, and a consumer that stops after some is given so many of the first.  Where
there is room for all, the first pass of the tokenizer counts what the second one lists, and that is
all of them; otherwise none is listed. -/
theorem tokenize_maximal (delimiter : UInt8) (limit : Int64) (expr : Bytes) :
    let words := tokens delimiter expr
    let room := effectiveTokenLimit limit
    let feed := tokenFeed delimiter expr
    (∀ found, AreRuns (effectiveDelimiter delimiter) (beforeNul expr) found ↔ found = words) ∧
    (∀ k, feed.take k = words.take k ∧ (feed.take k).length = min k words.length) ∧
    (words.length ≤ room → tokenize delimiter limit expr = .ok words ∧ feed.toList = words ∧
      countTokens delimiter room expr = feed.toList.length) ∧
    (room < words.length → tokenize delimiter limit expr = .error .tokenStorage) := by
  intro words room feed
  have delivers : feed.Delivers words := delivers_tokenFeed delimiter expr
  refine ⟨fun found => areRuns_iff, ?_, ?_, ?_⟩
  · intro k
    rw [delivers.take_eq k, List.length_take]
    exact ⟨rfl, rfl⟩
  · intro enough
    rw [tokenize_eq, if_pos enough, delivers.toList_eq, countTokens_eq]
    refine ⟨rfl, rfl, ?_⟩
    exact Nat.min_eq_left (Nat.le_succ_of_le enough)
  · intro many
    rw [tokenize_eq, if_neg (Nat.not_le.mpr many)]

end Rpn
