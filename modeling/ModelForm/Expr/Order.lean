import ModelForm.Expr.Preorder
import ModelForm.Node.Order

/-!
# Comparing expressions

Two trees are compared node by node in pre-order: the annotations first, then the shells. Equal
shells have equally many places, so the children of equal nodes pair up and the next pair to compare
is well defined. Comparison of annotations is that of the annotation's type; for typed trees it
ignores spans and labels.
-/

namespace ModelForm

namespace Expr

variable {α : Type}

/-- The pairs that are to be compared once the roots of two trees have turned out equal. -/
def pairChildren (a b : Expr α) : List (Expr α × Expr α) := a.node.children.zip b.node.children

/-- A bound on the number of comparisons that pending pairs give rise to. -/
def pairWeight (pairs : List (Expr α × Expr α)) : Nat := total (pairs.map fun p => p.1.nodeCount)

theorem pairWeight_zip_le (as bs : List (Expr α)) :
    pairWeight (as.zip bs) ≤ total (as.map nodeCount) := by
  induction as generalizing bs with
  | nil => exact Nat.le_refl 0
  | cons a as ih =>
    cases bs with
    | nil => exact Nat.zero_le _
    | cons b bs => exact Nat.add_le_add_left (ih bs) _

theorem pairWeight_lt (a b : Expr α) (pending : List (Expr α × Expr α)) :
    pairWeight (pairChildren a b ++ pending) < pairWeight ((a, b) :: pending) := by
  have h := pairWeight_zip_le a.node.children b.node.children
  simp only [pairWeight, pairChildren, List.map_append, total_append, List.map_cons,
    total_cons, nodeCount_eq a] at h ⊢
  omega

/-- Whether the trees of each pending pair are equal. -/
def allEqual [BEq α] : List (Expr α × Expr α) → Bool
  | [] => true
  | (a, b) :: pending =>
    if a.note == b.note && a.node.shell == b.node.shell then
      allEqual (pairChildren a b ++ pending)
    else
      false
termination_by pending => pairWeight pending
decreasing_by exact pairWeight_lt a b pending

/-- The first difference in the pending pairs decides. -/
def compareAll [Ord α] : List (Expr α × Expr α) → Ordering
  | [] => .eq
  | (a, b) :: pending =>
    match (compare a.note b.note).then (compare a.node.shell b.node.shell) with
    | .eq    => compareAll (pairChildren a b ++ pending)
    | differ => differ
termination_by pending => pairWeight pending
decreasing_by exact pairWeight_lt a b pending

instance [BEq α] : BEq (Expr α) := ⟨fun a b => allEqual [(a, b)]⟩

instance [Ord α] : Ord (Expr α) := ⟨fun a b => compareAll [(a, b)]⟩

end Expr

end ModelForm
