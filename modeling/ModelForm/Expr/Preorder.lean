import ModelForm.Expr.Fold

/-!
# Pre-order

The nodes of a tree in the order in which a reader meets them: the root first, then the children
from left to right. A tree and the list of its annotations and shells in that order determine each
other; `Expr.preorder` and `Expr.ofPreorder?` go both ways.
-/

namespace ModelForm

namespace Expr

variable {α β : Type}

/-! ## Listing -/

/-- Lists the subtrees of the pending trees in pre-order, behind what is listed already. -/
def listNodes : List (Expr α) → List (Expr α) → List (Expr α)
  | [], listed => listed.reverse
  | e :: pending, listed => listNodes (e.node.children ++ pending) (e :: listed)
termination_by pending => total (pending.map nodeCount)
decreasing_by
  simp only [List.map_append, List.map_cons, total_append, total_cons, nodeCount_eq e]
  omega

/-- All subtrees in pre-order, the tree itself first. -/
def nodes (e : Expr α) : List (Expr α) := listNodes [e] []

/-- All subtrees in pre-order, by recursion. -/
def subtrees : Expr α → List (Expr α) := para fun e lists => e :: lists.children.flatten

theorem subtrees_eq (e : Expr α) : e.subtrees = e :: e.node.children.flatMap subtrees := by
  rw [subtrees, para_eq, Node.children_map]
  rfl

theorem listNodes_eq (pending listed : List (Expr α)) :
    listNodes pending listed = listed.reverse ++ pending.flatMap subtrees := by
  fun_induction listNodes pending listed with
  | case1 listed => simp
  | case2 e pending listed ih => simp [ih, subtrees_eq e]

/-- The list of nodes unfolds at the root. -/
theorem nodes_eq (e : Expr α) : e.nodes = e :: e.node.children.flatMap nodes := by
  have h : @nodes α = subtrees := by
    funext e
    simp [nodes, listNodes_eq]
  rw [h, subtrees_eq]

/-- The number of nodes, as counted on the pre-order list. -/
def size (e : Expr α) : Nat := e.nodes.length

theorem size_eq_nodeCount (e : Expr α) : e.size = e.nodeCount := by
  induction e using induct with
  | step e ih =>
    have h : e.node.children.map (fun c => c.nodes.length) = e.node.children.map nodeCount :=
      List.map_congr_left ih
    rw [size, nodes_eq, List.length_cons, length_flatMap_eq_total, h, nodeCount_eq]

/-- The number of nodes on the longest way from the root to a leaf. -/
def height (e : Expr α) : Nat := e.fold fun _ heights => heights.children.foldl max 0 + 1

def preorder (e : Expr α) : List (α × Shell) := e.nodes.map fun e => (e.note, e.node.shell)

/-! ## Planting -/

/-- Puts a node on top of as many of the given trees as it has places. -/
def plant (trees : List (Expr α)) (item : α × Shell) : Option (List (Expr α)) := do
  let node ← item.2.fill? trees
  return ⟨item.1, node⟩ :: trees.drop item.2.arity

/-- The tree of a pre-order list, built from the last item to the first. A list that does not give
exactly one tree gives none. -/
def ofPreorder? (items : List (α × Shell)) : Option (Expr α) :=
  match items.reverse.foldlM plant [] with
  | some [e] => some e
  | _        => none

/-! ## Annotations -/

def mapNotes (f : α → β) (e : Expr α) : Expr β := e.fold fun note node => ⟨f note, node⟩

end Expr

end ModelForm
