import ModelForm.Annotation
import ModelForm.Expr.Fold
import ModelForm.Quoted

/-!
# Diagnostic text

Expressions written out in full, with their annotations: every form by its word and its parts in
parentheses, lists in brackets, structures with the names of their fields in braces.
-/

namespace ModelForm

/-! ## Layout -/

def commaSeparated (parts : List String) : String := ", ".intercalate parts

def describeForm (name : String) (parts : List String) : String :=
  name ++ "(" ++ commaSeparated parts ++ ")"

def describeList (items : List String) : String := "[" ++ commaSeparated items ++ "]"

/-- A structure with the names and texts of its fields. -/
def describeFields (name : String) (fields : List (String × String)) : String :=
  name ++ " \x7b " ++ commaSeparated (fields.map fun field => field.1 ++ ": " ++ field.2) ++ " \x7d"

/-! ## Annotations -/

def ValueType.describe : ValueType → String
  | .array element => describeForm "Array" [element.describe]
  | t              => t.tag

def Label.describe (l : Label) : String := describeForm "Label" [l.render]

/-- Annotations that diagnostics can show. -/
class Described (α : Type) where
  describe : α → String

instance : Described Untyped := ⟨fun _ => "Untyped"⟩

/-- The fields that typed and labelled annotations share. -/
def Typed.describedFields (note : Typed) : List (String × String) :=
  [("ty", note.type.describe), ("adlevel", note.level.tag), ("span", note.span.render)]

instance : Described Typed := ⟨fun note => describeFields "Typed" note.describedFields⟩

instance : Described Labelled :=
  ⟨fun note => describeFields "Labelled" (note.describedFields ++ [("label", note.label.describe)])⟩

/-! ## Expressions -/

def Index.describe : Index String → String
  | .all                 => "All"
  | .single position     => describeForm "Single" [position]
  | .upFrom lower        => describeForm "Upfrom" [lower]
  | .between lower upper => describeForm "Between" [lower, upper]
  | .multiple positions  => describeForm "MultiIndex" [positions]

def Node.describe : Node String → String
  | .var name                => describeForm "Variable" [quote name]
  | .literal kind text       => describeForm "Literal" [kind.tag, quote text]
  | .call kind name args     => describeForm "FunApp" [kind.describe, quote name, describeList args]
  | .conditional test yes no => describeForm "TernaryIf" [test, yes, no]
  | .and left right          => describeForm "And" [left, right]
  | .or left right           => describeForm "Or" [left, right]
  | .indexed base indices    =>
    describeForm "Indexed" [base, describeList (indices.map Index.describe)]
  | .paren inner             => describeForm "Paren" [inner]

def Expr.describe {α : Type} [Described α] (e : Expr α) : String :=
  e.fold fun note node =>
    describeFields "Expr" [("meta", Described.describe note), ("pattern", node.describe)]

end ModelForm
