import Std.Data.ExtTreeMap

/-!
# Tables in key order

A finite table of entries by key.  Two tables with the same entries are equal, in whatever order
they were filled, and `toList` gives the entries in increasing order of the keys, as a table is
shown.

* `Table.getElem?_put` says what a change does to every key.
-/

namespace Rpn

/-- A table from keys to values. -/
abbrev Table (κ α : Type) [Ord κ] := Std.ExtTreeMap κ α

namespace Table

variable {κ α : Type} [Ord κ] [Std.TransOrd κ] [Std.LawfulEqOrd κ] [DecidableEq κ]

/-- An entry that is put into a table is found under its key, and no other key is touched. -/
theorem getElem?_put (t : Table κ α) (k k' : κ) (a : α) :
    (t.insert k a)[k']? = if k = k' then some a else t[k']? := by
  simp only [Std.ExtTreeMap.getElem?_insert, Std.LawfulEqOrd.compare_eq_iff_eq]

end Table

end Rpn
