import ModelForm.Deprecation
import ModelForm.Grouping

/-!
# Canonical programs

The passes over a checked program in their order: deprecated constructs go first, since replacing a
choice introduces parentheses, and redundant parentheses go last.
-/

namespace ModelForm

/-- The canonical form of a checked program. -/
def Program.canonicalize (families : Catalog) (p : Program (Expr Typed)) :
    Traced (Program (Expr Typed)) := do
  Traced.emit (.started .canonicalize p.size)
  (← p.modernize families).normalizeGroups

end ModelForm
