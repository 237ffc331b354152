import ModelForm.Annotation
import ModelForm.Distribution
import ModelForm.Trace

/-!
# Regressions

A mass function whose parameter is a link function over a predictor has a sibling that takes the
predictor itself, and, for a linear predictor, one that takes the design matrix, the intercept and
the coefficients. `fuseCall?` and `fuseSampling?` find them for calls and for sampling statements.

The linear predictors are, in this order, `α + x * β`, `x * β + α` and `x * β` alone, with `x` a
matrix. A sum of which no side is such a product is not linear, even if it is more deeply.
-/

namespace ModelForm

/-! ## Families with a link -/

/-- A family, a link function for its parameter, and the family that has the link built in. -/
structure LinkedFamily where
  family : String
  link : String
  linked : String
  deriving DecidableEq, Repr

namespace LinkedFamily

def all : List LinkedFamily :=
  [⟨"bernoulli", "inv_logit", "bernoulli_logit"⟩,
    ⟨"poisson", "exp", "poisson_log"⟩,
    ⟨"neg_binomial_2", "exp", "neg_binomial_2_log"⟩,
    ⟨"categorical", "softmax", "categorical_logit"⟩]

def find? (family : String) : Option LinkedFamily := all.find? fun f => f.family == family

end LinkedFamily

/-- The suffixes under which the mass functions of these families are called. -/
def massSuffixes : List DensitySuffix := [.lpmf, .lupmf]

/-! ## Predictors -/

/-- The arguments of a plain call of the given library function. -/
def Expr.libraryArgs? {α : Type} (name : String) (e : Expr α) : Option (List (Expr α)) :=
  match e.node with
  | .call .library callee args => if callee = name then some args else none
  | _ => none

def Expr.operands? {α : Type} (op : Operator) (e : Expr α) : Option (Expr α × Expr α) :=
  match e.libraryArgs? op.name with
  | some [left, right] => some (left, right)
  | _ => none

/-- A linear predictor: the design matrix times the coefficients, and the intercept. -/
structure LinearPredictor where
  design : Expr Typed
  intercept : Expr Typed
  coefficients : Expr Typed

namespace LinearPredictor

/-- The factors of a product of a matrix with anything. -/
def product? (e : Expr Typed) : Option (Expr Typed × Expr Typed) :=
  (e.operands? .times).filter fun factors => factors.1.note.type.isMatrix

def zeroIntercept (predictor : Expr Typed) : Expr Typed :=
  ⟨⟨.int, .dataOnly, predictor.note.span⟩, .literal .int "0"⟩

/-- Reads an expression as a linear predictor. In a sum the right product counts first. -/
def ofExpr? (e : Expr Typed) : Option LinearPredictor :=
  match e.operands? .plus with
  | some (left, right) =>
    match product? right with
    | some (design, coefficients) => some ⟨design, left, coefficients⟩
    | none => (product? left).map fun (design, coefficients) => ⟨design, right, coefficients⟩
  | none => (product? e).map fun (design, coefficients) => ⟨design, zeroIntercept e, coefficients⟩

end LinearPredictor

/-! ## Fusion -/

/-- The distribution, with its arguments, that takes the place of one with a link. -/
structure Fusion where
  /-- The family that was named. -/
  family : String
  /-- The name of the new function or family. -/
  name : String
  /-- The outcome and the new arguments. -/
  args : List (Expr Typed)

namespace Fusion

def event (f : Fusion) : Event := .fused f.family f.name

end Fusion

/-- Fuses a family with a suffix to its name, given the outcome and the arguments. -/
def fuse? (family suffix : String) (args : List (Expr Typed)) : Option Fusion := do
  let f ← LinkedFamily.find? family
  match args with
  | outcome :: parameter :: rest =>
    match parameter.libraryArgs? f.link with
    | some [predictor] =>
      match LinearPredictor.ofExpr? predictor with
      | some linear =>
        some ⟨family, f.linked ++ "_glm" ++ suffix,
          [outcome, linear.design, linear.intercept, linear.coefficients] ++ rest⟩
      | none => some ⟨family, f.linked ++ suffix, [outcome, predictor] ++ rest⟩
    | _ => none
  | _ => none

/-- The outcome stays in front. -/
theorem Fusion.head?_args {family suffix : String} {args : List (Expr Typed)} {fusion : Fusion}
    (h : fuse? family suffix args = some fusion) : fusion.args.head? = args.head? := by
  simp only [fuse?, Option.bind_eq_bind, Option.bind_eq_some_iff] at h
  obtain ⟨f, -, h⟩ := h
  split at h
  · split at h
    · split at h
      · cases h
        rfl
      · cases h
        rfl
    · cases h
  · cases h

/-- The family and the suffix in the name of a mass function. Nothing has to stand before the suffix
here. -/
def splitMass? (name : String) : Option (String × DensitySuffix) :=
  massSuffixes.findSome? fun s => (stripSuffix? name s.text).map fun family => (family, s)

/-- Fuses a call of a mass function. The suffix stays. -/
def fuseCall? (name : String) (args : List (Expr Typed)) : Option Fusion := do
  let (family, s) ← splitMass? name
  fuse? family s.text args

def fuseSampling? (distribution : String) (args : List (Expr Typed)) : Option Fusion :=
  fuse? distribution "" args

end ModelForm
