/-!
# Calls

Who provides a called function and how it is applied. A density is applied conditionally, with the
outcome before a bar and the parameters after it; every other function is applied plainly.
-/

namespace ModelForm

/-- Who provides a function. -/
inductive Origin where
  | library
  | user
  deriving DecidableEq, Repr

namespace Origin

def rank : Origin → Nat
  | .library => 0
  | .user    => 1

instance : Ord Origin := ⟨compareOn rank⟩

def all : List Origin := [.library, .user]

def tag : Origin → String
  | .library => "StandardLibrary"
  | .user    => "UserDefined"

end Origin

/-- How a function is called. -/
inductive CallKind where
  /-- A plain call of a library function. -/
  | library
  /-- A plain call of a function of the program. -/
  | user
  /-- A call of what only the compiler provides. -/
  | internal
  /-- A density applied to an outcome given parameters. -/
  | conditional (origin : Origin)
  deriving DecidableEq, Repr

namespace CallKind

def plain : Origin → CallKind
  | .library => .library
  | .user    => .user

/-- Who provides the called function; nobody does for an internal one. -/
def origin? : CallKind → Option Origin
  | .library            => some .library
  | .user               => some .user
  | .internal           => none
  | .conditional origin => some origin

def isLibrary (kind : CallKind) : Bool := kind.origin? == some .library

/-- Comparing two call kinds is comparing these lists. -/
def orderKey : CallKind → List Nat
  | .library            => [0]
  | .user               => [1]
  | .internal           => [2]
  | .conditional origin => [3, origin.rank]

instance : Ord CallKind := ⟨compareOn orderKey⟩

def unconditional : List CallKind := [.library, .user, .internal]

def tag : CallKind → String
  | .library       => "StandardLibrary"
  | .user          => "UserDefined"
  | .internal      => "CompilerInternal"
  | .conditional _ => "ConditionalDistribution"

def describe : CallKind → String
  | .conditional origin => "ConditionalDistribution(" ++ origin.tag ++ ")"
  | kind                => kind.tag

end CallKind

inductive LiteralKind where
  | int
  | real
  | str
  deriving DecidableEq, Repr

namespace LiteralKind

def rank : LiteralKind → Nat
  | .int  => 0
  | .real => 1
  | .str  => 2

instance : Ord LiteralKind := ⟨compareOn rank⟩

def all : List LiteralKind := [.int, .real, .str]

def tag : LiteralKind → String
  | .int  => "Int"
  | .real => "Real"
  | .str  => "Str"

end LiteralKind

end ModelForm
