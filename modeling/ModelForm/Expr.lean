import ModelForm.Node

/-!
# Expressions

An expression is a tree of nodes, each with an annotation of type `α`. The same type serves trees
with any annotation, so a traversal is written once.

* `Expr.para` is the recursion principle that all structural definitions use: the result at a node
  from the results at its children. It is a specification; trees can be many thousands of levels
  deep, so what runs on them goes through the work-lists of `ModelForm.Expr.Fold`.
* `Expr.induct` is the induction principle that goes with it.
-/

namespace ModelForm

/-- An expression whose nodes carry annotations of type `α`. -/
structure Expr (α : Type) where
  note : α
  node : Node (Expr α)

namespace Expr

variable {α R : Type}

/-! ## Recursion -/

mutual

/-- The result at a tree from the tree itself and the results at its children. -/
def para (f : Expr α → Node R → R) : Expr α → R
  | ⟨note, node⟩ => f ⟨note, node⟩ (paraNode f node)

def paraNode (f : Expr α → Node R → R) : Node (Expr α) → Node R
  | .var name                => .var name
  | .literal kind text       => .literal kind text
  | .call kind name args     => .call kind name (paraList f args)
  | .conditional test yes no => .conditional (para f test) (para f yes) (para f no)
  | .and left right          => .and (para f left) (para f right)
  | .or left right           => .or (para f left) (para f right)
  | .indexed base indices    => .indexed (para f base) (paraIndices f indices)
  | .paren inner             => .paren (para f inner)

def paraList (f : Expr α → Node R → R) : List (Expr α) → List R
  | []      => []
  | e :: es => para f e :: paraList f es

def paraIndices (f : Expr α → Node R → R) : List (Index (Expr α)) → List (Index R)
  | []      => []
  | i :: is => paraIndex f i :: paraIndices f is

def paraIndex (f : Expr α → Node R → R) : Index (Expr α) → Index R
  | .all                 => .all
  | .single position     => .single (para f position)
  | .upFrom lower        => .upFrom (para f lower)
  | .between lower upper => .between (para f lower) (para f upper)
  | .multiple positions  => .multiple (para f positions)

end

theorem paraList_eq_map (f : Expr α → Node R → R) (es : List (Expr α)) :
    paraList f es = es.map (para f) := by
  induction es with
  | nil => rfl
  | cons e es ih => rw [paraList, ih, List.map_cons]

theorem paraIndices_eq_map (f : Expr α → Node R → R) (is : List (Index (Expr α))) :
    paraIndices f is = is.map (Index.map (para f)) := by
  induction is with
  | nil => rfl
  | cons i is ih =>
    rw [paraIndices, ih, List.map_cons]
    cases i <;> rfl

theorem paraNode_eq_map (f : Expr α → Node R → R) (n : Node (Expr α)) :
    paraNode f n = n.map (para f) := by
  cases n <;> simp [paraNode, Node.map, paraList_eq_map, paraIndices_eq_map]

/-- The recursion equation: every other fact about `para` follows from it. -/
theorem para_eq (f : Expr α → Node R → R) (e : Expr α) : para f e = f e (e.node.map (para f)) := by
  cases e
  rw [para, paraNode_eq_map]

/-! ## Induction -/

def nodeCount (e : Expr α) : Nat := e.para fun _ counts => total counts.children + 1

theorem nodeCount_eq (e : Expr α) :
    e.nodeCount = total (e.node.children.map nodeCount) + 1 := by
  rw [nodeCount, para_eq, Node.children_map]
  rfl

theorem nodeCount_pos (e : Expr α) : 0 < e.nodeCount := by
  rw [nodeCount_eq]
  exact Nat.succ_pos _

theorem nodeCount_lt_of_mem {c e : Expr α} (h : c ∈ e.node.children) :
    c.nodeCount < e.nodeCount := by
  rw [nodeCount_eq e]
  exact Nat.lt_succ_of_le (le_total_of_mem (List.mem_map_of_mem h))

/-- What holds of a tree whenever it holds of its children holds of every tree. -/
theorem induct {motive : Expr α → Prop}
    (step : ∀ e : Expr α, (∀ c ∈ e.node.children, motive c) → motive e) (e : Expr α) : motive e :=
  step e fun c _ => induct step c
termination_by e.nodeCount
decreasing_by exact nodeCount_lt_of_mem ‹_›

end Expr

end ModelForm
