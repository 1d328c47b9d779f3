import Mathlib.Order.Basic
import Mathlib.Data.List.Basic
import Mathlib.Data.Nat.Basic

/-!
# Tables that grow by whole chunks

A dataset with an unlimited first dimension: it has an extent, which can be set to any number of
rows, and a row within the extent can be written. Programs that append to such a dataset enlarge it
by more than they need and set the extent to the number of rows at the end.

`Dataset` is what such a program uses, and `LawfulDataset` what it relies on. `Holds` is the
invariant of appending, and `Exactly` is what should be left in the end.

## Main results

* `Holds.append` — enlarging and writing appends a row
* `Holds.trim` — setting the extent leaves exactly the rows
-/

/-- The operations on a dataset with rows of some type. -/
class Dataset (D : Type → Type) where
  /-- A dataset without rows. -/
  create {R : Type} : D R
  /-- The number of rows. -/
  extent {R : Type} : D R → ℕ
  /-- Change the number of rows. -/
  setExtent {R : Type} : D R → ℕ → D R
  /-- Write one row. -/
  write {R : Type} : D R → ℕ → R → D R
  /-- What is stored in a row, if anything was written to it. -/
  row {R : Type} : D R → ℕ → Option R

namespace Dataset

/-- What appending relies on. -/
class LawfulDataset (D : Type → Type) [Dataset D] : Prop where
  extent_create {R : Type} : extent (create : D R) = 0
  extent_setExtent {R : Type} (ds : D R) (n : ℕ) : extent (setExtent ds n) = n
  /-- Rows that stay keep what is stored in them, and new rows have nothing stored in them. -/
  row_setExtent {R : Type} (ds : D R) {n i : ℕ} (hi : i < n) :
    row (setExtent ds n) i = if i < extent ds then row ds i else none
  extent_write {R : Type} (ds : D R) (i : ℕ) (r : R) : extent (write ds i r) = extent ds
  row_write {R : Type} (ds : D R) {i : ℕ} (hi : i < extent ds) (r : R) (j : ℕ) :
    row (write ds i r) j = if j = i then some r else row ds j

export LawfulDataset (extent_create extent_setExtent row_setExtent extent_write row_write)

variable {D : Type → Type} [Dataset D] {R : Type} {ds : D R} {rows : List R}

/-- The dataset starts with these rows, and nothing is stored in the rows after them. -/
structure Holds (ds : D R) (rows : List R) : Prop where
  length_le : rows.length ≤ extent ds
  row_eq : ∀ i < extent ds, row ds i = rows[i]?

/-- The dataset consists of these rows. -/
structure Exactly (ds : D R) (rows : List R) : Prop extends Holds ds rows where
  extent_eq : extent ds = rows.length

variable [LawfulDataset D]

theorem holds_create : Holds (create : D R) [] where
  length_le := Nat.zero_le _
  row_eq i hi := by
    rw [extent_create] at hi
    exact absurd hi (Nat.not_lt_zero _)

theorem Holds.setExtent (h : Holds ds rows) {n : ℕ} (hn : rows.length ≤ n) :
    Holds (setExtent ds n) rows where
  length_le := by rw [extent_setExtent]; exact hn
  row_eq i hi := by
    rw [extent_setExtent] at hi
    rw [row_setExtent ds hi]
    split
    · next hold => exact h.row_eq i hold
    · next hnew =>
      refine (List.getElem?_eq_none_iff.mpr ?_).symm
      exact h.length_le.trans (Nat.le_of_not_lt hnew)

/-- A row is written after the others, where there is room for it. -/
theorem Holds.write (h : Holds ds rows) (hroom : rows.length < extent ds) (r : R) :
    Holds (write ds rows.length r) (rows ++ [r]) where
  length_le := by
    rw [extent_write, List.length_append, List.length_singleton]
    exact hroom
  row_eq i hi := by
    rw [extent_write] at hi
    rw [row_write ds hroom]
    split
    · next heq => rw [heq, List.getElem?_concat_length]
    · next hne =>
      rw [h.row_eq i hi]
      rcases Nat.lt_or_gt_of_ne hne with hlt | hgt
      · rw [List.getElem?_append_left hlt]
      · rw [List.getElem?_eq_none_iff.mpr hgt.le, List.getElem?_eq_none_iff.mpr]
        rw [List.length_append, List.length_singleton]
        exact hgt

/-- Enlarge the dataset to `n` rows when the next row does not fit, and write it. -/
def append (ds : D R) (n i : ℕ) (r : R) : D R :=
  Dataset.write (if extent ds ≤ i then Dataset.setExtent ds n else ds) i r

/-- The dataset as it is when the row is written. -/
def enlarged (ds : D R) (n i : ℕ) : D R := if extent ds ≤ i then Dataset.setExtent ds n else ds

/-- There is room for the row. -/
theorem lt_extent_enlarged (ds : D R) {n i : ℕ} (hn : i < n) : i < extent (enlarged ds n i) := by
  rw [enlarged]
  split
  · rw [extent_setExtent]
    exact hn
  · next hroom => exact Nat.lt_of_not_le hroom

theorem Holds.append (h : Holds ds rows) {n : ℕ} (hn : rows.length < n) (r : R) :
    Holds (Dataset.append ds n rows.length r) (rows ++ [r]) := by
  have henlarged : Holds (enlarged ds n rows.length) rows := by
    rw [enlarged]
    split
    · exact h.setExtent hn.le
    · exact h
  exact henlarged.write (lt_extent_enlarged ds hn) r

/-- Room that was made for one row stays for those after it. -/
theorem extent_append (ds : D R) (n i : ℕ) (r : R) :
    extent (Dataset.append ds n i r) = if extent ds ≤ i then n else extent ds := by
  rw [Dataset.append, extent_write]
  split
  · rw [extent_setExtent]
  · rfl

theorem Holds.trim (h : Holds ds rows) : Exactly (Dataset.setExtent ds rows.length) rows where
  toHolds := h.setExtent le_rfl
  extent_eq := extent_setExtent _ _

/-- A dataset as the list of its rows. -/
structure Rows (R : Type) where
  rows : List (Option R)

instance : Dataset Rows where
  create := ⟨[]⟩
  extent ds := ds.rows.length
  setExtent ds n := ⟨ds.rows.take n ++ List.replicate (n - ds.rows.length) none⟩
  write ds i r := ⟨ds.rows.set i (some r)⟩
  row ds i := (ds.rows[i]?).join

instance : LawfulDataset Rows where
  extent_create := rfl
  extent_setExtent ds n := by
    show (ds.rows.take n ++ List.replicate (n - ds.rows.length) none).length = n
    rw [List.length_append, List.length_take, List.length_replicate]
    omega
  row_setExtent ds n i hi := by
    show ((ds.rows.take n ++ List.replicate (n - ds.rows.length) none)[i]?).join = _
    split
    · next hold =>
      have hlen : i < (ds.rows.take n).length := by
        rw [List.length_take]
        exact lt_min hi hold
      rw [List.getElem?_append_left hlen, List.getElem?_take_of_lt hi]
      rfl
    · next hnew =>
      have hge : ds.rows.length ≤ i := Nat.le_of_not_lt hnew
      rw [List.getElem?_append_right (by rw [List.length_take]; omega), List.length_take,
        List.getElem?_replicate_of_lt (by omega)]
      rfl
  extent_write ds i r := List.length_set
  row_write ds i hi r j := by
    show ((ds.rows.set i (some r))[j]?).join = _
    split
    · next heq =>
      subst heq
      rw [List.getElem?_set_self hi]
      rfl
    · next hne =>
      rw [List.getElem?_set_ne (Ne.symm hne)]
      rfl

end Dataset
