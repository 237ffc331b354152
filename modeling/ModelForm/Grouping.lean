import ModelForm.Annotation
import ModelForm.Stmt
import ModelForm.Trace

/-!
# Groups

Parentheses around an expression matter only where the expression is an operand and is itself
written with operators. Everywhere else they are dropped, and where they matter one pair is kept.

An expression is *bare* when it has lost all parentheses around it, and *kept* when it has one pair
if it was in any and needs one. Operands, the bases of indexed expressions and the bounds of loops
are kept; arguments, index bounds and whole expressions of statements are bare. No parentheses are
ever added.
-/

namespace ModelForm

/-- A normalized expression together with the annotation of the innermost parentheses that it stood
in, if it stood in any. -/
structure Grouped (α : Type) where
  bare : Expr α
  group : Option α

namespace Grouped

variable {α : Type}

/-- The expression in one pair of parentheses, if it stood in any and is written with operators. -/
def kept (g : Grouped α) : Expr α :=
  match g.group with
  | some note => if g.bare.node.isOperatorLike then ⟨note, .paren g.bare⟩ else g.bare
  | none      => g.bare

/-- Normalizes a node over normalized children. -/
def ofNode (note : α) : Node (Grouped α) → Grouped α
  | .paren inner => ⟨inner.bare, some (inner.group.getD note)⟩
  | .indexed base indices => ⟨⟨note, .indexed base.kept (indices.map (Index.map bare))⟩, none⟩
  | node => ⟨⟨note, node.map (if node.isOperatorLike then kept else bare)⟩, none⟩

/-- Normalizes an expression and tells what it was grouped by. -/
def ofExpr (e : Expr α) : Grouped α := e.fold ofNode

end Grouped

def Expr.normalizeGroups {α : Type} (e : Expr α) : Expr α := (Grouped.ofExpr e).bare

def Expr.normalizeBound {α : Type} (e : Expr α) : Expr α := (Grouped.ofExpr e).kept

namespace Stmt

variable {α : Type}

mutual

/-- The statement without redundant parentheses. Only loops have expressions that are kept, so a
statement without inner statements is left to the map that treats all expressions alike. -/
def normalizeGroups : Stmt (Expr α) → Stmt (Expr α)
  | .forLoop var lower upper body =>
    .forLoop var lower.normalizeBound upper.normalizeBound (normalizeGroups body)
  | .whileLoop test body => .whileLoop test.normalizeGroups (normalizeGroups body)
  | .branch test yes no =>
    .branch test.normalizeGroups (normalizeGroups yes) (normalizeGroupsOption no)
  | .block body => .block (normalizeGroupsList body)
  | s => s.map Expr.normalizeGroups

def normalizeGroupsList : List (Stmt (Expr α)) → List (Stmt (Expr α))
  | []      => []
  | s :: ss => normalizeGroups s :: normalizeGroupsList ss

def normalizeGroupsOption : Option (Stmt (Expr α)) → Option (Stmt (Expr α))
  | none   => none
  | some s => some (normalizeGroups s)

end

end Stmt

def Program.normalizeGroups (p : Program (Expr Typed)) : Traced (Program (Expr Typed)) := do
  Traced.emit (.started .normalizeGroups p.size)
  return ⟨p.statements.map Stmt.normalizeGroups⟩

end ModelForm
