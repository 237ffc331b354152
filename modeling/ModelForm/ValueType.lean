/-!
# Value types

The type of a value, without the sizes of containers: scalars, containers of reals or of complex
numbers, arrays of any type, and `void` for what returns nothing.

* `ValueType.render` writes a type the way users see it: nested arrays are one `array` with a comma
  per further dimension.
* Types are ordered by their form, in the order of the constructors, and arrays by their elements.
-/

namespace ModelForm

/-- The type of a value, sizes left out. -/
inductive ValueType where
  | int
  | real
  | complex
  | vector
  | rowVector
  | matrix
  | complexVector
  | complexRowVector
  | complexMatrix
  | array (element : ValueType)
  | void
  deriving DecidableEq, Repr, Inhabited

namespace ValueType

/-- Only real matrices count as matrices. -/
def isMatrix : ValueType → Bool
  | .matrix => true
  | _       => false

def isVectorLike : ValueType → Bool
  | .vector | .rowVector => true
  | _                    => false

def innermost : ValueType → ValueType
  | .array element => element.innermost
  | t              => t

def arrayDims : ValueType → Nat
  | .array element => element.arrayDims + 1
  | _              => 0

/-- Integers promoted to reals, also inside arrays. -/
def promoted : ValueType → ValueType
  | .int           => .real
  | .array element => .array element.promoted
  | t              => t

def unlayered : List ValueType :=
  [.int, .real, .complex, .vector, .rowVector, .matrix, .complexVector, .complexRowVector,
    .complexMatrix, .void]

/-! ## Text -/

def keyword : ValueType → String
  | .int              => "int"
  | .real             => "real"
  | .complex          => "complex"
  | .vector           => "vector"
  | .rowVector        => "row_vector"
  | .matrix           => "matrix"
  | .complexVector    => "complex_vector"
  | .complexRowVector => "complex_row_vector"
  | .complexMatrix    => "complex_matrix"
  | .array element    => element.keyword
  | .void             => "void"

/-- The word for the outermost form of a type. -/
def tag : ValueType → String
  | .int              => "Int"
  | .real             => "Real"
  | .complex          => "Complex"
  | .vector           => "Vector"
  | .rowVector        => "RowVector"
  | .matrix           => "Matrix"
  | .complexVector    => "ComplexVector"
  | .complexRowVector => "ComplexRowVector"
  | .complexMatrix    => "ComplexMatrix"
  | .array _          => "Array"
  | .void             => "Void"

/-- What stands in the brackets of an array: one comma less than there are layers. There is nothing
to write if there is no layer. -/
def commas? (t : ValueType) : Option String :=
  if 1 ≤ t.arrayDims then
    some (String.ofList (List.replicate (t.arrayDims - 1) ','))
  else
    none

/-- The type as users write it, unless the commas of an array are missing. -/
def render? (t : ValueType) : Option String :=
  match t with
  | .array _ => t.commas?.map fun commas => "array[" ++ commas ++ "] " ++ t.innermost.keyword
  | _        => some t.keyword

/-- An array has its own layer at least. -/
theorem one_le_arrayDims (element : ValueType) : 1 ≤ (array element).arrayDims :=
  Nat.le_add_left 1 element.arrayDims

theorem commas?_array (element : ValueType) :
    (array element).commas? = some (String.ofList (List.replicate element.arrayDims ',')) := by
  rw [commas?, if_pos (one_le_arrayDims element)]
  rfl

theorem isSome_render? (t : ValueType) : t.render?.isSome := by
  unfold render?
  split
  · next element => rw [commas?_array, Option.map_some, Option.isSome_some]
  · rfl

/-- The type as users write it. An array of `n + 1` layers has `n` commas in its brackets. -/
def render (t : ValueType) : String := t.render?.get t.isSome_render?

/-! ## Order -/

/-- The places of the forms from the outside in: comparing two types is comparing these lists. -/
def orderKey : ValueType → List Nat
  | .int              => [0]
  | .real             => [1]
  | .complex          => [2]
  | .vector           => [3]
  | .rowVector        => [4]
  | .matrix           => [5]
  | .complexVector    => [6]
  | .complexRowVector => [7]
  | .complexMatrix    => [8]
  | .array element    => 9 :: element.orderKey
  | .void             => [10]

instance : Ord ValueType := ⟨compareOn orderKey⟩

end ValueType

end ModelForm
