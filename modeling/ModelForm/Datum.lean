/-!
# Plain data

The data that values are stored as: texts, integers, lists and records. Values of the library are
written as such data and read back from it by the rules of this module:

* a case without parts is its name, or a record with its name over `null`;
* a case with one part is a record with its name over the part;
* a case with several parts is a record with its name over the list of the parts, or over the record
  of the parts where the parts have names;
* a structure is the record of its fields, or the list of their values in order. Further fields of a
  record are ignored.
-/

namespace ModelForm

inductive Datum where
  | null
  | bool (value : Bool)
  | int (value : Int)
  /-- A number that is not written as an integer: the digits and how many stand behind the point. -/
  | decimal (digits : Int) (places : Nat)
  | text (value : String)
  | list (items : List Datum)
  | record (fields : List (String × Datum))
  deriving Inhabited

namespace Datum

/-! ## Depth -/

mutual

/-- The number of layers, counting the datum's own. -/
def depth : Datum → Nat
  | .list items    => depthList items + 1
  | .record fields => depthFields fields + 1
  | _              => 1

def depthList : List Datum → Nat
  | []      => 0
  | d :: ds => max (depth d) (depthList ds)

def depthFields : List (String × Datum) → Nat
  | []           => 0
  | (_, d) :: ds => max (depth d) (depthFields ds)

end

/-! ## Writing -/

/-- A case with one part. -/
def tagged (name : String) (part : Datum) : Datum := .record [(name, part)]

def taggedList (name : String) (parts : List Datum) : Datum := tagged name (.list parts)

/-! ## Reading -/

/-- The name of a case and what stands under it, if anything does. -/
def toCase? : Datum → Option (String × Option Datum)
  | .text name             => some (name, none)
  | .record [(name, part)] => some (name, some part)
  | _                      => none

/-- The name of a case without parts. -/
def toName? (d : Datum) : Option String :=
  match d.toCase? with
  | some (name, none) | some (name, some .null) => some name
  | _                                           => none

/-- The case without parts that has the datum's name, among the cases listed. -/
def toMember? {γ : Type} (members : List γ) (tag : γ → String) (d : Datum) : Option γ := do
  let name ← d.toName?
  members.find? fun member => tag member == name

/-- The values of a structure's fields, in the order of the names. -/
def toFields? (names : List String) : Datum → Option (List Datum)
  | .record fields => names.mapM fun name => fields.lookup name
  | .list items    => if items.length = names.length then some items else none
  | _              => none

end Datum

end ModelForm
