import Std.Data.TreeMap
import ModelForm.Annotation
import ModelForm.Distribution
import ModelForm.Stmt
import ModelForm.Trace

/-!
# Deprecated constructs

What was removed from the language and what stands in its place:

* library functions with a new name, among them the old spellings of densities and distribution
  functions, which a catalog of families gives rise to (`DeprecationTable.ofCatalog`);
* the call that read the log density, now the internal call `target`;
* the choice between two values written as a call, now a conditional;
* the statement that added to the log density, and the arrow that assigned.

The table never renames functions of the program, whatever their names are.
-/

namespace ModelForm

/-! ## The table -/

/-- The new name of a function, and whether it is applied conditionally. -/
structure Replacement where
  name : String
  conditional : Bool
  deriving DecidableEq, Repr

def renamedFunctions : List (String × Replacement) :=
  [("binomial_coefficient_log", ⟨"lchoose", false⟩),
    ("multiply_log", ⟨"lmultiply", false⟩),
    ("cov_exp_quad", ⟨"gp_exp_quad_cov", false⟩),
    ("fabs", ⟨"abs", false⟩)]

def Family.oldSpellings (f : Family) : List (String × Replacement) :=
  (if f.provides .density then
    [(f.name ++ "_log", ⟨f.name ++ f.support.suffix.text, true⟩)] else []) ++
  (if f.provides .lcdf then [(f.name ++ "_cdf_log", ⟨f.name ++ "_lcdf", false⟩)] else []) ++
  (if f.provides .lccdf then [(f.name ++ "_ccdf_log", ⟨f.name ++ "_lccdf", false⟩)] else [])

/-- All deprecated names that a catalog gives rise to, in the order in which they enter the
table. -/
def Catalog.deprecated (families : Catalog) : List (String × Replacement) :=
  renamedFunctions ++ families.flatMap Family.oldSpellings

structure DeprecationTable where
  replacements : Std.TreeMap String Replacement

namespace DeprecationTable

/-- The table of a catalog. Of two entries for one name the later one counts. -/
def ofCatalog (families : Catalog) : DeprecationTable :=
  ⟨families.deprecated.foldl (fun found entry => found.insert entry.1 entry.2) ∅⟩

def builtin : DeprecationTable := ofCatalog Catalog.builtin

def size (t : DeprecationTable) : Nat := t.replacements.size

/-- The call that replaces a call of a deprecated library function. -/
def rename? (t : DeprecationTable) (kind : CallKind) (name : String) : Option (CallKind × String) :=
  if kind.isLibrary then
    t.replacements[name]?.map fun r =>
      (if r.conditional then .conditional .library else kind, r.name)
  else
    none

end DeprecationTable

/-! ## Expressions -/

namespace Expr

variable {α : Type}

/-- What stands in place of a call. The test of a choice that was written as a call is grouped, for
it was an argument and becomes an operand. -/
def modernCall (table : DeprecationTable) (kind : CallKind) (name : String) (args : List (Expr α)) :
    Traced (Node (Expr α)) :=
  if name = "if_else" ∧ kind.isLibrary then
    match args with
    | [test, yes, no] => do
      Traced.emit .choiceReplaced
      return .conditional ⟨test.note, .paren test⟩ yes no
    | _ => pure (.call kind name args)
  else if name = "get_lp" ∧ args.isEmpty ∧ kind ≠ .user then do
    Traced.emit .targetRead
    return .call .internal "target" args
  else
    match table.rename? kind name with
    | some (newKind, newName) => do
      Traced.emit (.renamed name newName)
      return .call newKind newName args
    | none => pure (.call kind name args)

def modernizeStep (table : DeprecationTable) (note : α) : Node (Expr α) → Traced (Expr α)
  | .call kind name args => return ⟨note, ← modernCall table kind name args⟩
  | node => pure ⟨note, node⟩

/-- The expression without deprecated calls. -/
def modernize (table : DeprecationTable) (e : Expr α) : Traced (Expr α) :=
  e.foldTraced (modernizeStep table)

end Expr

/-! ## Statements -/

/-- What stands in place of a statement. Renaming a call in statement position is not reported. -/
def Stmt.modernForm {ε : Type} (table : DeprecationTable) : Stmt ε → Traced (Stmt ε)
  | .incrementLogProb amount => do
    Traced.emit .targetIncremented
    return .targetPlus amount
  | .assign target .arrow value => pure (.assign target .plain value)
  | .call kind name args =>
    match table.rename? kind name with
    | some (newKind, newName) => pure (.call newKind newName args)
    | none => pure (.call kind name args)
  | s => pure s

/-- The statement without deprecated constructs: its expressions come first, then its statements
from the inside out. -/
def Stmt.modernize (table : DeprecationTable) (s : Stmt (Expr Typed)) :
    Traced (Stmt (Expr Typed)) := do
  let s ← s.traverse (Expr.modernize table)
  s.transform (Stmt.modernForm table)

def Program.modernizeWith (table : DeprecationTable) (p : Program (Expr Typed)) :
    Traced (Program (Expr Typed)) :=
  p.traverseStmts (Stmt.modernize table)

def Program.modernize (families : Catalog) (p : Program (Expr Typed)) :
    Traced (Program (Expr Typed)) := do
  Traced.emit (.started .modernize p.size)
  p.modernizeWith (.ofCatalog families)

end ModelForm
