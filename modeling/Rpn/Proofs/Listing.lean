import Mathlib.Algebra.Group.Nat.Defs
import Mathlib.Data.List.Nodup
import Rpn.Listing

/-!
# The lines of a listing

* `Listing.lineAfter` — what one physical line adds to a listing;
* `Listing.eq_filterMap_of_parse` — the lines of a listing that is read are the statements of its
  physical lines, each with the number of its place;
* `Listing.nodup_number_of_parse` — no two of them have the same number, as long as the numbers do
  not wrap around.
-/

namespace Rpn.Listing

/-- What a physical line adds to a listing: the line that it stands for, or none, behind `count` lines
of which `last` is the content of the last one. -/
def lineAfter (count : Nat) (last line : Bytes) : Except Error (List Line) :=
  if longestLine < line.length then .error (.inListing (Int64.ofNat count) last .lineTooLong)
  else
    match statement (content line) with
    | .error e => .error (.inListing (Int64.ofNat (count + 1)) (content line) e)
    | .ok asked => .ok (asked.toList.map fun s => ⟨Int64.ofNat (count + 1), s⟩)

theorem parseLines_cons (count : Nat) (last : Bytes) (seen : List Line) (line : Bytes)
    (rest : List Bytes) :
    parseLines count last seen (line :: rest) =
      match lineAfter count last line with
      | .error e => .error e
      | .ok more => parseLines (count + 1) (content line) (more ++ seen) rest := by
  rw [parseLines, lineAfter]
  split
  · rfl
  · rcases statement (content line) with e | _ | s <;> rfl

/-- The line that a physical line stands for, by the number of its place; none if it is blank or
wrong. -/
def lineAt? (line : Bytes × Nat) : Option Line :=
  (statement (content line.1)).toOption.join.map fun s => ⟨Int64.ofNat line.2, s⟩

theorem eq_of_lineAfter {count : Nat} {last line : Bytes} {more : List Line}
    (added : lineAfter count last line = .ok more) :
    line.length ≤ longestLine ∧ more = (lineAt? (line, count + 1)).toList := by
  rw [lineAfter] at added
  split at added
  · cases added
  · next short =>
    refine ⟨Nat.not_lt.mp short, ?_⟩
    rw [lineAt?]
    split at added
    · cases added
    · next asked eq =>
      obtain rfl := Except.ok.inj added
      rw [eq]
      cases asked <;> rfl

theorem eq_filterMap_of_parseLines {physical : List Bytes} {count : Nat} {last : Bytes}
    {seen lines : List Line} (read : parseLines count last seen physical = .ok lines) :
    lines = seen.reverse ++ (physical.zipIdx (count + 1)).filterMap lineAt? := by
  induction physical generalizing count last seen with
  | nil =>
    rw [parseLines] at read
    cases read
    simp only [List.zipIdx_nil, List.filterMap_nil, List.append_nil]
  | cons line rest ih =>
    rw [parseLines_cons] at read
    cases added : lineAfter count last line with
    | error e =>
      rw [added] at read
      cases read
    | ok more =>
      rw [added] at read
      rw [ih read, (eq_of_lineAfter added).2, List.zipIdx_cons, List.filterMap_cons]
      cases lineAt? (line, count + 1) with
      | none => rfl
      | some l =>
        rw [Option.toList_some, List.singleton_append, List.reverse_cons, List.append_assoc]
        rfl

/-- The lines of a listing that is read are those of its physical lines, numbered from 1. -/
theorem eq_filterMap_of_parse {text : Bytes} {lines : List Line} (read : parse text = .ok lines) :
    lines = ((physicalLines text).zipIdx 1).filterMap lineAt? :=
  eq_filterMap_of_parseLines read

theorem number_of_lineAt? {physical : Bytes × Nat} {line : Line} (h : lineAt? physical = some line) :
    line.number = Int64.ofNat physical.2 := by
  obtain ⟨s, -, rfl⟩ := Option.map_eq_some_iff.mp h
  rfl

theorem ofNat_inj_of_le {i j : Nat} (hi : 1 ≤ i ∧ i ≤ 2 ^ 64) (hj : 1 ≤ j ∧ j ≤ 2 ^ 64)
    (h : Int64.ofNat i = Int64.ofNat j) : i = j := by
  have same : (UInt64.ofNat i).toNat = (UInt64.ofNat j).toNat := by
    rw [← Int64.toUInt64_ofNat', ← Int64.toUInt64_ofNat', h]
  rw [UInt64.toNat_ofNat', UInt64.toNat_ofNat'] at same
  omega

/-- No two lines of a listing have the same number.  Numbers are words of 64 bits, so that this
needs that there be no more lines than words. -/
theorem nodup_number_of_parse {text : Bytes} {lines : List Line} (read : parse text = .ok lines)
    (short : (physicalLines text).length ≤ 2 ^ 64) : (lines.map Line.number).Nodup := by
  have places : (((physicalLines text).zipIdx 1).map Prod.snd).Nodup := by
    rw [List.zipIdx_map_snd]
    exact List.nodup_range'
  have apart := List.Pairwise.and_mem.mp (List.pairwise_map.mp places)
  rw [eq_filterMap_of_parse read]
  refine List.pairwise_map.mpr (List.pairwise_filterMap.mpr (apart.imp ?_))
  rintro ⟨_, i⟩ ⟨_, j⟩ ⟨memᵢ, memⱼ, ne⟩ line hᵢ line' hⱼ same
  rw [number_of_lineAt? hᵢ, number_of_lineAt? hⱼ] at same
  have placeᵢ := List.snd_lt_add_of_mem_zipIdx memᵢ
  have placeⱼ := List.snd_lt_add_of_mem_zipIdx memⱼ
  exact ne (ofNat_inj_of_le ⟨List.le_snd_of_mem_zipIdx memᵢ, by omega⟩
    ⟨List.le_snd_of_mem_zipIdx memⱼ, by omega⟩ same)

end Rpn.Listing
