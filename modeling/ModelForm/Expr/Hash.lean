import ModelForm.Annotation
import ModelForm.Expr.Preorder

/-!
# Hashing expressions

A tree is given to a hasher node by node in pre-order, and of each node its head: what the
annotation says, and the shell. A hasher is any state that takes in one head after the other, so
nothing here depends on the numbers that come out.

What an annotation says is what counts when annotations are compared: the type and the autodiff
level, and nothing at all for a tree that was only parsed.
-/

namespace ModelForm

/-- The annotation of a parsed tree says nothing. -/
def Untyped.meaning (_ : Untyped) : Unit := ()

/-- A label adds nothing to what an annotation says. -/
def Labelled.meaning (l : Labelled) : ValueType × AdLevel := l.toTyped.meaning

namespace Expr

variable {α β σ : Type} (meaning : α → β)

/-- What the root says by itself: what its annotation says, and its shell. -/
def head (e : Expr α) : β × Shell := (meaning e.note, e.node.shell)

/-- The state of a hasher that has taken in a tree. -/
def hashInto (take : σ → β × Shell → σ) (state : σ) (e : Expr α) : σ :=
  e.nodes.foldl (fun state n => take state (n.head meaning)) state

/-- All that a hasher is given, from first to last. -/
def hashed (e : Expr α) : List (β × Shell) := e.nodes.map (head meaning)

end Expr

end ModelForm
