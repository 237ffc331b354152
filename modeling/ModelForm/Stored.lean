import ModelForm.Annotation
import ModelForm.Datum
import ModelForm.Node

/-!
# Stored values

How the parts of expressions are written as plain data and read back. `Stored` gives a type both
ways; reading answers `none` for data that does not say what a value of the type needs.

Types and nodes are here, whole trees are in `ModelForm.Stored.Expr` and statements in
`ModelForm.Stored.Stmt`.
-/

namespace ModelForm

/-- Values that can be written as plain data and read back. -/
class Stored (α : Type) where
  toDatum : α → Datum
  ofDatum? : Datum → Option α

export Stored (toDatum ofDatum?)

/-! ## Data, texts, numbers -/

instance : Stored Datum := ⟨id, some⟩

instance : Stored Unit where
  toDatum _ := .null
  ofDatum?
    | .null => some ()
    | _     => none

instance : Stored String where
  toDatum := .text
  ofDatum?
    | .text value => some value
    | _           => none

instance : Stored UInt32 where
  toDatum n := .int n.toNat
  ofDatum?
    | .int value =>
      if 0 ≤ value ∧ value < UInt32.size then some (UInt32.ofNat value.toNat) else none
    | _          => none

/-! ## Containers -/

instance {γ : Type} [Stored γ] : Stored (List γ) where
  toDatum items := .list (items.map toDatum)
  ofDatum?
    | .list items => items.mapM ofDatum?
    | _           => none

/-- What is missing is stored as `null`. -/
instance {γ : Type} [Stored γ] : Stored (Option γ) where
  toDatum
    | none   => .null
    | some a => toDatum a
  ofDatum?
    | .null => some none
    | d     => (ofDatum? d).map some

/-! ## Words -/

instance : Stored AdLevel := ⟨fun level => .text level.tag, Datum.toMember? AdLevel.all AdLevel.tag⟩

instance : Stored Origin := ⟨fun origin => .text origin.tag, Datum.toMember? Origin.all Origin.tag⟩

instance : Stored LiteralKind :=
  ⟨fun kind => .text kind.tag, Datum.toMember? LiteralKind.all LiteralKind.tag⟩

instance : Stored Operator := ⟨fun op => .text op.tag, Datum.toMember? Operator.all Operator.tag⟩

instance : Stored CallKind where
  toDatum
    | .conditional origin => .tagged "ConditionalDistribution" (toDatum origin)
    | kind                => .text kind.tag
  ofDatum? d :=
    match d.toCase? with
    | some ("ConditionalDistribution", some origin) => (ofDatum? origin).map .conditional
    | _ => d.toMember? CallKind.unconditional CallKind.tag

/-! ## Types -/

namespace ValueType

def write : ValueType → Datum
  | .array element => .tagged "Array" element.write
  | t              => .text t.tag

/-- Reads a type of at most the given number of layers. -/
def readWithin : Nat → Datum → Option ValueType
  | 0, _ => none
  | layers + 1, d =>
    match d.toCase? with
    | some ("Array", some element) => (readWithin layers element).map .array
    | _ => d.toMember? unlayered tag

instance : Stored ValueType := ⟨write, fun d => readWithin d.depth d⟩

end ValueType

/-! ## Annotations -/

instance : Stored Untyped where
  toDatum _ := .null
  ofDatum?
    | .null => some {}
    | _     => none

instance : Stored Span where
  toDatum span := .record [("start", toDatum span.start), ("end", toDatum span.stop)]
  ofDatum? d := do
    match ← d.toFields? ["start", "end"] with
    | [start, stop] => return ⟨← ofDatum? start, ← ofDatum? stop⟩
    | _ => none

instance : Stored Typed where
  toDatum note :=
    .record [("ty", toDatum note.type), ("adlevel", toDatum note.level),
      ("span", toDatum note.span)]
  ofDatum? d := do
    match ← d.toFields? ["ty", "adlevel", "span"] with
    | [type, level, span] => return ⟨← ofDatum? type, ← ofDatum? level, ← ofDatum? span⟩
    | _ => none

instance : Stored Labelled where
  toDatum note :=
    .record [("ty", toDatum note.type), ("adlevel", toDatum note.level),
      ("span", toDatum note.span), ("label", toDatum note.label)]
  ofDatum? d := do
    match ← d.toFields? ["ty", "adlevel", "span", "label"] with
    | [type, level, span, label] =>
      return ⟨⟨← ofDatum? type, ← ofDatum? level, ← ofDatum? span⟩, ← ofDatum? label⟩
    | _ => none

/-! ## Nodes

The children of a node are data here; what they stand for is read in a second step. -/

namespace Index

def write : Index Datum → Datum
  | .all                 => .text "All"
  | .single position     => .tagged "Single" position
  | .upFrom lower        => .tagged "Upfrom" lower
  | .between lower upper => .taggedList "Between" [lower, upper]
  | .multiple positions  => .tagged "MultiIndex" positions

/-- The index whose bounds are still data. -/
def read? (d : Datum) : Option (Index Datum) :=
  match d.toCase? with
  | some ("All", none) | some ("All", some .null) => some .all
  | some ("Single", some position) => some (.single position)
  | some ("Upfrom", some lower) => some (.upFrom lower)
  | some ("Between", some (.list [lower, upper])) => some (.between lower upper)
  | some ("MultiIndex", some positions) => some (.multiple positions)
  | _ => none

instance {γ : Type} [Stored γ] : Stored (Index γ) where
  toDatum i := (i.map toDatum).write
  ofDatum? d := do (← read? d).traverse ofDatum?

end Index

namespace Node

def write : Node Datum → Datum
  | .var name                => .tagged "Variable" (.text name)
  | .literal kind text       => .taggedList "Literal" [toDatum kind, .text text]
  | .call kind name args     => .taggedList "FunApp" [toDatum kind, .text name, .list args]
  | .conditional test yes no => .taggedList "TernaryIf" [test, yes, no]
  | .and left right          => .taggedList "And" [left, right]
  | .or left right           => .taggedList "Or" [left, right]
  | .indexed base indices    => .taggedList "Indexed" [base, .list (indices.map Index.write)]
  | .paren inner             => .tagged "Paren" inner

/-- The node whose children are still data. -/
def read? (d : Datum) : Option (Node Datum) :=
  match d.toCase? with
  | some ("Variable", some (.text name)) => some (.var name)
  | some ("Literal", some (.list [kind, .text text])) => return .literal (← ofDatum? kind) text
  | some ("FunApp", some (.list [kind, .text name, .list args])) =>
    return .call (← ofDatum? kind) name args
  | some ("TernaryIf", some (.list [test, yes, no])) => some (.conditional test yes no)
  | some ("And", some (.list [left, right])) => some (.and left right)
  | some ("Or", some (.list [left, right])) => some (.or left right)
  | some ("Indexed", some (.list [base, .list indices])) =>
    return .indexed base (← indices.mapM Index.read?)
  | some ("Paren", some inner) => some (.paren inner)
  | _ => none

instance {γ : Type} [Stored γ] : Stored (Node γ) where
  toDatum n := (n.map toDatum).write
  ofDatum? d := do (← read? d).traverse ofDatum?

end Node

end ModelForm
