import ModelForm.Node

/-!
# The order of shells

Shells are ordered by their form first: variables, literals, calls, conditionals, conjunctions,
disjunctions, indexed expressions, groups. Within a form the parts decide from left to right: the
kind, then the text, then what is known of the children, which is their number for a call and the
forms of the indices for an indexed expression.
-/

namespace ModelForm

namespace Shell

def rank : Shell → Nat
  | .var _          => 0
  | .literal ..     => 1
  | .call ..        => 2
  | .conditional .. => 3
  | .and ..         => 4
  | .or ..          => 5
  | .indexed ..     => 6
  | .paren _        => 7

/-- The kind of a literal or a call, as numbers to compare. -/
def kindKey : Shell → List Nat
  | .literal kind _ => [kind.rank]
  | .call kind _ _  => kind.orderKey
  | _               => []

def text : Shell → String
  | .var name       => name
  | .literal _ text => text
  | .call _ name _  => name
  | _               => ""

/-- What the shell says about its children beyond its form, as numbers to compare. -/
def placesKey : Shell → List Nat
  | .call _ _ args     => [args.length]
  | .indexed _ indices => indices.map Index.rank
  | _                  => []

/-- The four parts, from the first to decide to the last. -/
def compareParts : Shell → Shell → Ordering :=
  compareLex (compareOn rank) <| compareLex (compareOn kindKey) <|
    compareLex (compareOn text) (compareOn placesKey)

end Shell

instance : Ord Shell := ⟨Shell.compareParts⟩

end ModelForm
