import ModelForm.Annotation
import ModelForm.Distribution
import ModelForm.Stmt
import ModelForm.Trace

/-!
# Repair of the syntax

A call is a conditional application exactly when its name is that of a density. The parser cannot
always tell, so `Expr.repair` gives each call the kind that its name asks for and keeps its origin.
Sampling statements name a family and not a density, so `Program.repair` also drops a density suffix
from their distributions.
-/

namespace ModelForm

/-- The kind of a call of the given name: the origin stays, and the application is conditional
exactly for densities. Internal calls have no origin and stay as they are. -/
def CallKind.retag (kind : CallKind) (name : String) : CallKind :=
  match kind.origin? with
  | none        => kind
  | some origin => if (densitySuffix? name).isSome then .conditional origin else .plain origin

namespace Expr

variable {α : Type}

/-- Gives a call the kind that its name asks for, and reports it if the kind was another. -/
def retagStep (note : α) : Node (Expr α) → Traced (Expr α)
  | .call kind name args =>
    let retagged := kind.retag name
    if retagged = kind then
      pure ⟨note, .call kind name args⟩
    else do
      Traced.emit (.retagged name kind retagged)
      return ⟨note, .call retagged name args⟩
  | node => pure ⟨note, node⟩

/-- The expression with every call of the kind that its name asks for. -/
def repair (e : Expr α) : Traced (Expr α) := e.foldTraced retagStep

end Expr

/-- A sampling statement names its family, without the suffix of a density. -/
def Stmt.nameFamily {ε : Type} : Stmt ε → Stmt ε
  | .tilde outcome distribution args truncation =>
    .tilde outcome (stripDensitySuffix distribution) args truncation
  | s => s

/-- The program with its calls retagged and its sampling statements naming families. -/
def Program.repair (p : Program (Expr Untyped)) : Traced (Program (Expr Untyped)) := do
  Traced.emit (.started .repair p.size)
  p.traverseStmts fun s => do
    let s ← s.traverse Expr.repair
    s.transform fun s => pure s.nameFamily

end ModelForm
