import PaymentBilling.Relational.Store

/-!
# Relational.Pages

Selections that are read page by page.

A selection filters rows, puts them in an order and gives a page of them.  The
pages of one size, read one after the other, are the whole selection.
-/

namespace Relational

variable {α : Type}

/-- The rows that match, in the order of `before`: `take` of them after `skip`. -/
def select (matching : α → Bool) (before : α → α → Bool) (take skip : Nat) (rows : List α) : List α :=
  (((rows.filter matching).mergeSort before).drop skip).take take

/-- How many rows match. -/
def count (matching : α → Bool) (rows : List α) : Nat := (rows.filter matching).length

/-- The first pages, one after the other. -/
theorem flatMap_pages (l : List α) (size pages : Nat) :
    ((List.range pages).flatMap fun k => (l.drop (k * size)).take size) = l.take (pages * size) := by
  induction pages with
  | zero => simp
  | succ pages ih =>
      rw [List.range_succ, List.flatMap_append, ih, List.flatMap_singleton, Nat.succ_mul, List.take_add]

section Pages

variable {matching : α → Bool} {before : α → α → Bool} {rows : List α} {size pages : Nat}

/-- As many pages as it takes are the selection, up to its order. -/
theorem pages_perm (h : count matching rows ≤ pages * size) :
    ((List.range pages).flatMap fun k => select matching before size (k * size) rows).Perm
      (rows.filter matching) := by
  have hall : ((List.range pages).flatMap fun k => select matching before size (k * size) rows) =
      (rows.filter matching).mergeSort before := by
    refine (flatMap_pages _ size pages).trans (List.take_of_length_le ?_)
    rw [List.length_mergeSort]
    exact h
  rw [hall]
  exact List.mergeSort_perm _ _

/-- A page has no row that does not match. -/
theorem mem_of_mem_select {take skip : Nat} {row : α}
    (h : row ∈ select matching before take skip rows) : row ∈ rows ∧ matching row = true := by
  have hsorted := List.mem_of_mem_drop (List.mem_of_mem_take h)
  exact List.mem_filter.mp ((List.mergeSort_perm _ _).mem_iff.mp hsorted)

end Pages

end Relational
