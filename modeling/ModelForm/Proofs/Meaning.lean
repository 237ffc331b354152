import ModelForm.Build
import ModelForm.Proofs.Equality
import ModelForm.Proofs.Renaming
import ModelForm.Repair

/-!
# Meanings of expressions

An `Interpretation` gives a value to every form of node from the values of its children, and says
which values have which type. It is free to do so in any way: values may be numbers, functions of a
state, or outlines, that is the variables of an expression with its type (`Interpretation.outline`).

`Interpretation.Lawful` lists what the rewrites of `Expr.apply` rely on, each under the condition on
types under which the rewrite is made, and nothing else:

* the identities of powers, logarithms and products of something with itself,
* the new names of deprecated library functions, the choice and the log density,
* the mass functions that take up a link function, or a whole linear model.
-/

namespace ModelForm

/-- A meaning for every form of node, and for every type. -/
structure Interpretation (V : Type) where
  var : String → V
  literal : LiteralKind → String → V
  call : CallKind → String → List V → V
  conditional : V → V → V → V
  and : V → V → V
  or : V → V → V
  indexed : V → List (Index V) → V
  /-- The value two. -/
  two : V
  /-- The value one half. -/
  half : V
  HasType : V → ValueType → Prop

namespace Interpretation

variable {V α : Type} (M : Interpretation V)

/-! ## Values -/

/-- The value of a node from the values of its children. A group means what it holds. -/
def node : Node V → V
  | .var name                => M.var name
  | .literal kind text       => M.literal kind text
  | .call kind name args     => M.call kind name args
  | .conditional test yes no => M.conditional test yes no
  | .and left right          => M.and left right
  | .or left right           => M.or left right
  | .indexed base indices    => M.indexed base indices
  | .paren inner             => inner

/-- The value of an expression. Annotations have no part in it. -/
def eval : Expr α → V := Expr.para fun _ node => M.node node

theorem eval_eq (e : Expr α) : M.eval e = M.node (e.node.map M.eval) := by
  rw [eval, Expr.para_eq]

def library (name : String) (args : List V) : V := M.call .library name args

def density (name : String) (args : List V) : V := M.call (.conditional .library) name args

/-- The value of each node has the type of its annotation. -/
def WellTyped (e : Expr Typed) : Prop := ∀ s ∈ e.nodes, M.HasType (M.eval s) s.note.type

/-! ## Laws -/

structure Lawful : Prop where
  /-- A numeral that rounds to two means two. -/
  literal_two : ∀ kind ∈ [LiteralKind.int, .real], ∀ text n, Numeral.read? text = some n → n.isTwo →
    M.literal kind text = M.two
  /-- A numeral that rounds to one half means one half. -/
  literal_half : ∀ kind ∈ [LiteralKind.int, .real], ∀ text n, Numeral.read? text = some n →
    n.isHalf → M.literal kind text = M.half
  /-- The second power is the square, where the result has the promoted type. -/
  pow_two : ∀ name ∈ ["pow", "Pow__"], ∀ x type, M.HasType x type →
    M.HasType (M.library name [x, M.two]) type.promoted →
    M.library name [x, M.two] = M.library "square" [x]
  /-- The power with one half is the square root, where the result has the promoted type. -/
  pow_half : ∀ name ∈ ["pow", "Pow__"], ∀ x type, M.HasType x type →
    M.HasType (M.library name [x, M.half]) type.promoted →
    M.library name [x, M.half] = M.library "sqrt" [x]
  /-- The logarithm undoes the exponential, where both ends have one type. -/
  log_exp : ∀ x type, M.HasType x type →
    M.HasType (M.library "log" [M.library "exp" [x]]) type →
    M.library "log" [M.library "exp" [x]] = x
  /-- `v' * v` for a vector. -/
  vector_product : ∀ v, M.HasType v .vector →
    M.library "Times__" [M.library "Transpose__" [v], v] = M.library "dot_self" [v]
  /-- `r * r'` for a row vector. -/
  rowVector_product : ∀ r, M.HasType r .rowVector →
    M.library "Times__" [r, M.library "Transpose__" [r]] = M.library "dot_self" [r]
  /-- `m' * m` for a matrix. -/
  crossprod : ∀ m, M.HasType m .matrix →
    M.library "Times__" [M.library "Transpose__" [m], m] = M.library "crossprod" [m]
  /-- `m * m'` for a matrix. -/
  tcrossprod : ∀ m, M.HasType m .matrix →
    M.library "Times__" [m, M.library "Transpose__" [m]] = M.library "tcrossprod" [m]
  dot_product : ∀ v type, type.isVectorLike → M.HasType v type →
    M.library "dot_product" [v, v] = M.library "dot_self" [v]
  columns_dot_product : ∀ m,
    M.library "columns_dot_product" [m, m] = M.library "columns_dot_self" [m]
  rows_dot_product : ∀ m, M.library "rows_dot_product" [m, m] = M.library "rows_dot_self" [m]
  /-- A deprecated function of the library is the one that replaces it. -/
  renamed : ∀ old kind new args, DeprecationTable.builtin.rename? .library old = some (kind, new) →
    M.library old args = M.call kind new args
  /-- The choice that is written as a call is the conditional. -/
  choice : ∀ test yes no, M.library "if_else" [test, yes, no] = M.conditional test yes no
  /-- The log density has two names. -/
  target : ∀ kind ∈ [CallKind.library, .internal],
    M.call kind "get_lp" [] = M.call .internal "target" []
  /-- `link(α + x * β)` in a mass function. -/
  intercept_left : ∀ f ∈ LinkedFamily.all, ∀ s ∈ massSuffixes, ∀ outcome x a b rest,
    M.HasType x .matrix →
    M.density (f.family ++ s.text) (outcome ::
        M.library f.link [M.library "Plus__" [a, M.library "Times__" [x, b]]] :: rest) =
      M.density (f.linked ++ "_glm" ++ s.text) (outcome :: x :: a :: b :: rest)
  /-- `link(x * β + α)` in a mass function. -/
  intercept_right : ∀ f ∈ LinkedFamily.all, ∀ s ∈ massSuffixes, ∀ outcome x a b rest,
    M.HasType x .matrix →
    M.density (f.family ++ s.text) (outcome ::
        M.library f.link [M.library "Plus__" [M.library "Times__" [x, b], a]] :: rest) =
      M.density (f.linked ++ "_glm" ++ s.text) (outcome :: x :: a :: b :: rest)
  /-- `link(x * β)` in a mass function: the intercept is the literal zero. -/
  no_intercept : ∀ f ∈ LinkedFamily.all, ∀ s ∈ massSuffixes, ∀ outcome x b rest,
    M.HasType x .matrix →
    M.density (f.family ++ s.text) (outcome ::
        M.library f.link [M.library "Times__" [x, b]] :: rest) =
      M.density (f.linked ++ "_glm" ++ s.text) (outcome :: x :: M.literal .int "0" :: b :: rest)
  /-- A link function alone in a mass function. -/
  link : ∀ f ∈ LinkedFamily.all, ∀ s ∈ massSuffixes, ∀ outcome eta rest,
    M.density (f.family ++ s.text) (outcome :: M.library f.link [eta] :: rest) =
      M.density (f.linked ++ s.text) (outcome :: eta :: rest)

/-! ## Outlines -/

/-- What can be said of an expression without computing: the variables that stand in it, and its
type. Integers count as reals. -/
@[ext]
structure Outline where
  mentions : String → Prop
  type : ValueType

namespace Outline

def sumType : ValueType → ValueType → ValueType
  | .real, type => type
  | type, _     => type

def productType : ValueType → ValueType → ValueType
  | .real, type         => type
  | .vector, .rowVector => .matrix
  | .rowVector, .vector => .real
  | .rowVector, .matrix => .rowVector
  | .matrix, .vector    => .vector
  | type, _             => type

def transposeType : ValueType → ValueType
  | .vector    => .rowVector
  | .rowVector => .vector
  | type       => type

/-- The functions whose results are not always reals, each with the type that it gives to its result
from those of its arguments. -/
def signatures : List (String × (List ValueType → ValueType)) :=
  let first (types : List ValueType) := types.getD 0 .real
  let second (types : List ValueType) := types.getD 1 .real
  [("Plus__", fun types => sumType (first types) (second types)),
    ("Times__", fun types => productType (first types) (second types)),
    ("Transpose__", fun types => transposeType (first types)),
    ("if_else", second)] ++
  ["pow", "Pow__", "square", "sqrt", "exp", "log", "inv_logit", "softmax", "crossprod",
    "tcrossprod"].map fun name => (name, first)

def resultType (name : String) (types : List ValueType) : ValueType :=
  match signatures.lookup name with
  | some signature => signature types
  | none           => .real

def call (name : String) (args : List Outline) : Outline where
  mentions v := ∃ a ∈ args, a.mentions v
  type       := resultType name (args.map type)

def constant (type : ValueType) : Outline := ⟨fun _ => False, type⟩

@[simp] theorem mentions_call (name : String) (args : List Outline) (v : String) :
    (call name args).mentions v ↔ ∃ a ∈ args, a.mentions v := Iff.rfl

@[simp] theorem type_call (name : String) (args : List Outline) :
    (call name args).type = resultType name (args.map type) := rfl

@[simp] theorem not_mentions_constant (t : ValueType) (v : String) : ¬ (constant t).mentions v := id

/-- Without signatures, calls are the same as soon as they mention the same variables. -/
theorem call_eq_call {old new : String} (hold : signatures.lookup old = none)
    (hnew : signatures.lookup new = none) {args args' : List Outline}
    (h : ∀ v, (∃ a ∈ args, a.mentions v) ↔ ∃ a ∈ args', a.mentions v) :
    call old args = call new args' := by
  ext v
  · exact h v
  · simp only [type_call, resultType, hold, hnew]

/-- Deprecated functions and their replacements have no signatures. -/
theorem lookup_deprecated : ∀ entry ∈ Catalog.builtin.deprecated,
    signatures.lookup entry.1 = none ∧ signatures.lookup entry.2.name = none := by
  decide +kernel

/-- Mass functions have no signatures. -/
theorem lookup_mass : ∀ f ∈ LinkedFamily.all, ∀ s ∈ massSuffixes,
    signatures.lookup (f.family ++ s.text) = none ∧
      signatures.lookup (f.linked ++ s.text) = none ∧
      signatures.lookup (f.linked ++ "_glm" ++ s.text) = none := by
  decide +kernel

end Outline

/-- The interpretation of expressions by their outlines, for variables that are declared with the
given types. What is picked by an index counts as a real. -/
def outline (declared : String → ValueType) : Interpretation Outline where
  var name                := ⟨fun v => v = name, (declared name).promoted⟩
  literal kind _          := .constant (if kind = .str then .void else .real)
  call _ name args        := .call name args
  conditional test yes no :=
    ⟨fun v => test.mentions v ∨ yes.mentions v ∨ no.mentions v, yes.type⟩
  and left right          := ⟨fun v => left.mentions v ∨ right.mentions v, .real⟩
  or left right           := ⟨fun v => left.mentions v ∨ right.mentions v, .real⟩
  indexed base indices    :=
    ⟨fun v => base.mentions v ∨ ∃ i ∈ indices, ∃ c ∈ i.children, c.mentions v, .real⟩
  two                     := .constant .real
  half                    := .constant .real
  HasType v type          := v.type = type.promoted

variable (declared : String → ValueType)

open Outline in
/-- No law drops a variable or adds one, and no law changes a type. -/
theorem lawful_outline : (outline declared).Lawful := by
  constructor
  case literal_two | literal_half =>
    intro kind hkind text n _ _
    have hnumeric : kind ≠ .str := by
      rintro rfl
      revert hkind
      decide
    simp only [outline, hnumeric, if_false]
  -- the laws between functions with a signature, some of which hold for values of one type only
  case pow_two | pow_half =>
    intro name hname x type _ _
    simp only [List.mem_cons, List.not_mem_nil, or_false] at hname
    rcases hname with rfl | rfl <;> ext v <;>
      simp [library, outline, resultType, signatures, List.lookup_cons]
  case log_exp =>
    intro x type _ _
    ext v <;> simp [library, outline, resultType, signatures, List.lookup_cons]
  case vector_product | rowVector_product | crossprod | tcrossprod =>
    intro x hx
    change x.type = _ at hx
    ext v
    · simp [library, outline]
    · simp [library, outline, resultType, signatures, List.lookup_cons, hx, ValueType.promoted,
        transposeType, productType]
  case choice =>
    intro test yes no
    ext v <;> simp [library, outline, resultType, signatures, List.lookup_cons]
  -- and those between functions without one
  case dot_product =>
    intro x type _ _
    exact call_eq_call (by decide) (by decide) (by simp)
  case columns_dot_product | rows_dot_product =>
    intro x
    exact call_eq_call (by decide) (by decide) (by simp)
  case target =>
    intro kind _
    exact call_eq_call (by decide) (by decide) fun _ => Iff.rfl
  case renamed =>
    intro old kind new args h
    obtain ⟨-, r, hr, rfl, -⟩ := DeprecationTable.rename?_eq_some h
    obtain ⟨hold, hnew⟩ := lookup_deprecated _ hr
    exact call_eq_call hold hnew fun _ => Iff.rfl
  case intercept_left | intercept_right =>
    intro f hf s hs outcome x a b rest _
    obtain ⟨hfamily, -, hglm⟩ := lookup_mass f hf s hs
    exact call_eq_call hfamily hglm (by simp [library, outline, or_assoc, or_left_comm])
  case no_intercept =>
    intro f hf s hs outcome x b rest _
    obtain ⟨hfamily, -, hglm⟩ := lookup_mass f hf s hs
    exact call_eq_call hfamily hglm (by simp [library, outline, or_assoc])
  case link =>
    intro f hf s hs outcome eta rest
    obtain ⟨hfamily, hlinked, -⟩ := lookup_mass f hf s hs
    exact call_eq_call hfamily hlinked (by simp [library, outline])

end Interpretation

end ModelForm
