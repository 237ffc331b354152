/-!
# Operators

The operators of the surface language. Applying one is calling the library function of its `name`,
so an operator application in a tree is recognised by that name.
-/

namespace ModelForm

/-- An operator of the surface language. The unary ones stand before their operand, `transpose`
stands behind it. -/
inductive Operator where
  | plus
  | minus
  | times
  | divide
  | intDivide
  | modulo
  | leftDivide
  | eltTimes
  | eltDivide
  | pow
  | eltPow
  | equals
  | notEquals
  | less
  | lessEq
  | greater
  | greaterEq
  | unaryMinus
  | unaryPlus
  | unaryNot
  | transpose
  deriving DecidableEq, Repr

namespace Operator

def all : List Operator :=
  [.plus, .minus, .times, .divide, .intDivide, .modulo, .leftDivide, .eltTimes, .eltDivide, .pow,
    .eltPow, .equals, .notEquals, .less, .lessEq, .greater, .greaterEq, .unaryMinus, .unaryPlus,
    .unaryNot, .transpose]

def tag : Operator → String
  | .plus       => "Plus"
  | .minus      => "Minus"
  | .times      => "Times"
  | .divide     => "Divide"
  | .intDivide  => "IntDivide"
  | .modulo     => "Modulo"
  | .leftDivide => "LDivide"
  | .eltTimes   => "EltTimes"
  | .eltDivide  => "EltDivide"
  | .pow        => "Pow"
  | .eltPow     => "EltPow"
  | .equals     => "Equals"
  | .notEquals  => "NEquals"
  | .less       => "Less"
  | .lessEq     => "Leq"
  | .greater    => "Greater"
  | .greaterEq  => "Geq"
  | .unaryMinus => "PMinus"
  | .unaryPlus  => "PPlus"
  | .unaryNot   => "PNot"
  | .transpose  => "Transpose"

/-- The library function that an operator stands for. -/
def name (op : Operator) : String := op.tag ++ "__"

def ofName? (name : String) : Option Operator := all.find? fun op => op.name == name

def place (op : Operator) : Nat := all.idxOf op

instance : Ord Operator := ⟨compareOn place⟩

end Operator

end ModelForm
