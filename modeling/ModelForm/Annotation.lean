import ModelForm.ValueType

/-!
# Annotations

What a tree carries at each of its nodes. A tree from the parser carries nothing (`Untyped`), a
checked tree carries a type, an autodiff level and a source span (`Typed`), and a numbered tree
carries a label besides (`Labelled`).

Comparison of annotations is by meaning: type and autodiff level count, spans and labels do not, so
two trees built at different places of a source are the same tree. Plain equality `=` still tells
them apart.
-/

namespace ModelForm

/-! ## Parts -/

/-- Whether a value takes part in differentiation. -/
inductive AdLevel where
  | dataOnly
  | autodiff
  deriving DecidableEq, Repr

namespace AdLevel

instance : Inhabited AdLevel := ⟨.dataOnly⟩

def rank : AdLevel → Nat
  | .dataOnly => 0
  | .autodiff => 1

instance : Ord AdLevel := ⟨compareOn rank⟩

def all : List AdLevel := [.dataOnly, .autodiff]

def tag : AdLevel → String
  | .dataOnly => "DataOnly"
  | .autodiff => "AutoDiffable"

end AdLevel

/-- A range of source positions, the end excluded. -/
structure Span where
  start : UInt32
  stop : UInt32
  deriving DecidableEq, Repr

namespace Span

/-- The span of what has no place in a source. -/
def dummy : Span := ⟨0, 0⟩

def render (s : Span) : String :=
  toString s.start.toNat ++ ".." ++ toString s.stop.toNat

end Span

/-- The number that identifies a node of a tree. -/
abbrev Label := UInt32

def Label.render (l : Label) : String :=
  toString l.toNat

/-- The label after the given one, unless that is the largest. -/
def Label.next? (l : Label) : Option Label :=
  if l.toNat + 1 < UInt32.size then some (l + 1) else none

/-! ## The three annotations -/

/-- The annotation of a tree that was only parsed. -/
structure Untyped where
  deriving DecidableEq, Repr

instance : Ord Untyped := ⟨fun _ _ => .eq⟩

/-- The annotation of a checked tree. -/
structure Typed where
  type : ValueType
  level : AdLevel
  span : Span
  deriving Repr

/-- The annotation of a checked and numbered tree. -/
structure Labelled extends Typed where
  label : Label
  deriving Repr

namespace Typed

/-- The annotation of generated data of the given type, which has no place in a source. -/
def data (type : ValueType) : Typed := ⟨type, .dataOnly, .dummy⟩

/-- What an annotation says about its value. -/
def meaning (t : Typed) : ValueType × AdLevel := (t.type, t.level)

instance : BEq Typed := ⟨fun a b => a.meaning == b.meaning⟩

instance : Ord Typed := ⟨compareLex (compareOn type) (compareOn level)⟩

def withLabel (t : Typed) (label : Label) : Labelled := ⟨t, label⟩

end Typed

namespace Labelled

instance : BEq Labelled := ⟨fun a b => a.toTyped == b.toTyped⟩

instance : Ord Labelled := ⟨compareOn Labelled.toTyped⟩

end Labelled

end ModelForm
