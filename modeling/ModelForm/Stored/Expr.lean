import ModelForm.Expr.Fold
import ModelForm.Stored

/-!
# Stored expressions

A tree is stored as the pair of its annotation and its node, with the children stored in the node's
places.
-/

namespace ModelForm

namespace Expr

variable {α : Type} [Stored α]

def write (e : Expr α) : Datum := e.fold fun note node => .list [toDatum note, node.write]

/-- Reads a tree from data of at most the given depth. -/
def readWithin : Nat → Datum → Option (Expr α)
  | depth + 1, .list [note, node] => do
    let note ← ofDatum? note
    let node ← Node.read? node
    return ⟨note, ← node.traverse (readWithin depth)⟩
  | _, _ => none

instance : Stored (Expr α) := ⟨write, fun d => readWithin d.depth d⟩

end Expr

end ModelForm
