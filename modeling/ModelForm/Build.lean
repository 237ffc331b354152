import ModelForm.Deprecation
import ModelForm.Expr.Order
import ModelForm.Numeral
import ModelForm.Regression

/-!
# Building canonical expressions

`Expr.apply` builds a call that is canonical from the start: a deprecated callee gets its new name,
a mass function with a link is fused with it, and a few identities are applied. What matches none of
this is built as it is written. The other forms of expressions need no such care and are built by
their constructors.

The identities look at the expressions as they are written, and nothing is computed:

* `pow(x, 2)` is `square(x)` and `pow(x, 0.5)` is `sqrt(x)`, where the result has the promoted type
  of `x`;
* `log(exp(x))` is `x`, where `x` has the type of the result;
* `v' * v` and `r * r'` are `dot_self`, `m' * m` is `crossprod(m)` and `m * m'` is `tcrossprod(m)`,
  for a vector `v`, a row vector `r` and a matrix `m`;
* the products of something with itself that are written as calls are the calls for exactly that.
-/

namespace ModelForm

namespace Expr

/-! ## Identities -/

def libraryCall (note : Typed) (name : String) (arg : Expr Typed) : Expr Typed :=
  ⟨note, .call .library name [arg]⟩

def numeral? (e : Expr Typed) : Option Numeral :=
  match e.node with
  | .literal .int text | .literal .real text => Numeral.read? text
  | _ => none

def simplifyPower? (note : Typed) (x exponent : Expr Typed) : Option (Expr Typed) := do
  let n ← exponent.numeral?
  if note.type = x.note.type.promoted then
    if n.isTwo then some (libraryCall note "square" x)
    else if n.isHalf then some (libraryCall note "sqrt" x)
    else none
  else
    none

def simplifyLog? (note : Typed) (arg : Expr Typed) : Option (Expr Typed) :=
  match arg.libraryArgs? "exp" with
  | some [x] => if x.note.type = note.type then some x else none
  | _ => none

/-- What an expression is the transpose of. -/
def transposed? (e : Expr Typed) : Option (Expr Typed) :=
  match e.libraryArgs? Operator.transpose.name with
  | some [a] => some a
  | _ => none

/-- The product of something with its transpose. The transpose on the left decides first, and what
it decides against is not looked at again. -/
def simplifyProduct? (note : Typed) (left right : Expr Typed) : Option (Expr Typed) :=
  if left.transposed?.any (· == right) then
    match right.note.type with
    | .vector => some (libraryCall note "dot_self" right)
    | .matrix => some (libraryCall note "crossprod" right)
    | _ => none
  else if right.transposed?.any (· == left) then
    match left.note.type with
    | .rowVector => some (libraryCall note "dot_self" left)
    | .matrix => some (libraryCall note "tcrossprod" left)
    | _ => none
  else
    none

/-- The expression that an identity puts in place of a plain library call. -/
def simplify? (note : Typed) (name : String) (args : List (Expr Typed)) : Option (Expr Typed) :=
  match name, args with
  | "pow", [x, exponent] | "Pow__", [x, exponent] => simplifyPower? note x exponent
  | "log", [arg] => simplifyLog? note arg
  | "Times__", [left, right] => simplifyProduct? note left right
  | "dot_product", [a, b] =>
    if a == b && a.note.type.isVectorLike then some (libraryCall note "dot_self" a) else none
  | "columns_dot_product", [a, b] =>
    if a == b then some (libraryCall note "columns_dot_self" a) else none
  | "rows_dot_product", [a, b] =>
    if a == b then some (libraryCall note "rows_dot_self" a) else none
  | _, _ => none

/-! ## Calls -/

/-- Builds a call whose callee is not deprecated. -/
def applyModern (note : Typed) (kind : CallKind) (name : String) (args : List (Expr Typed)) :
    Traced (Expr Typed) :=
  match (if kind.isLibrary then fuseCall? name args else none) with
  | some fusion => do
    Traced.emit fusion.event
    return ⟨note, .call kind fusion.name fusion.args⟩
  | none =>
    match (if kind = .library then simplify? note name args else none) with
    | some e => do
      Traced.emit (.identity name e.node.callee?)
      return e
    | none => pure ⟨note, .call kind name args⟩

/-- Builds a call. -/
def apply (note : Typed) (kind : CallKind) (name : String) (args : List (Expr Typed)) :
    Traced (Expr Typed) := do
  match ← modernCall .builtin kind name args with
  | .call kind name args => applyModern note kind name args
  | node => pure ⟨note, node⟩

def applyOperator (note : Typed) (op : Operator) (args : List (Expr Typed)) : Traced (Expr Typed) :=
  apply note .library op.name args

/-! ## Whole expressions -/

/-- Builds a node from built children. -/
def build (note : Typed) : Node (Expr Typed) → Traced (Expr Typed)
  | .call kind name args => apply note kind name args
  | node => pure ⟨note, node⟩

/-- Builds the expression anew, from the leaves to the root. -/
def rebuild (e : Expr Typed) : Traced (Expr Typed) := e.foldTraced build

end Expr

/-! ## Sampling statements -/

namespace Stmt

/-- The distribution of a sampling statement, with the outcome before the arguments, as fusion
leaves them. -/
def fuseSampled (distribution : String) (sampled : List (Expr Typed)) :
    Traced (String × List (Expr Typed)) :=
  match fuseSampling? distribution sampled with
  | some fusion => do
    Traced.emit fusion.event
    return (fusion.name, fusion.args)
  | none => pure (distribution, sampled)

/-- Builds a sampling statement. The outcome is taken back from the front of what fusion leaves, and
there is no statement if nothing is left. -/
def sample? (outcome : Expr Typed) (distribution : String) (args : List (Expr Typed))
    (truncation : Truncation (Expr Typed)) : Traced (Option (Stmt (Expr Typed))) := do
  let (distribution, sampled) ← fuseSampled distribution (outcome :: args)
  match sampled with
  | outcome :: args => return some (.tilde outcome distribution args truncation)
  | []              => return none

theorem head?_fuseSampled (distribution : String) (sampled : List (Expr Typed)) :
    (fuseSampled distribution sampled).value.2.head? = sampled.head? := by
  unfold fuseSampled
  split
  · next fusion h => exact Fusion.head?_args h
  · rfl

/-- The statement is made of what fusion leaves, and the outcome is the one that was given. -/
theorem value_sample? (outcome : Expr Typed) (distribution : String) (args : List (Expr Typed))
    (truncation : Truncation (Expr Typed)) :
    let fused := (fuseSampled distribution (outcome :: args)).value
    (sample? outcome distribution args truncation).value =
      some (.tilde outcome fused.1 fused.2.tail truncation) := by
  intro fused
  obtain ⟨rest, hrest⟩ : ∃ rest, fused.2 = outcome :: rest :=
    List.head?_eq_some_iff.mp (head?_fuseSampled distribution (outcome :: args))
  show Traced.value (match fused.2 with
    | outcome :: args => pure (some (Stmt.tilde outcome fused.1 args truncation))
    | [] => pure none) = _
  rw [hrest]
  rfl

def sample (outcome : Expr Typed) (distribution : String) (args : List (Expr Typed))
    (truncation : Truncation (Expr Typed)) : Traced (Stmt (Expr Typed)) :=
  let built := sample? outcome distribution args truncation
  ⟨built.value.get (by rw [value_sample?]; rfl), built.events⟩

end Stmt

end ModelForm
