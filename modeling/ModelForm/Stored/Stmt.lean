import ModelForm.Stmt
import ModelForm.Stored

/-!
# Stored statements and programs

Statements are stored as cases. Those whose parts have names are stored with these names, and what a
branch does otherwise may be left out.
-/

namespace ModelForm

instance : Stored AssignOp where
  toDatum
    | .plain       => .text "Assign"
    | .arrow       => .text "ArrowAssign"
    | .compound op => .tagged "Compound" (toDatum op)
  ofDatum? d :=
    match d.toCase? with
    | some ("Assign", none) | some ("Assign", some .null) => some .plain
    | some ("ArrowAssign", none) | some ("ArrowAssign", some .null) => some .arrow
    | some ("Compound", some op) => (ofDatum? op).map .compound
    | _ => none

instance {ε : Type} [Stored ε] : Stored (Truncation ε) where
  toDatum
    | .unbounded     => .text "None"
    | .lower bound   => .tagged "Lower" (toDatum bound)
    | .upper bound   => .tagged "Upper" (toDatum bound)
    | .both low high => .taggedList "Both" [toDatum low, toDatum high]
  ofDatum? d :=
    match d.toCase? with
    | some ("None", none) | some ("None", some .null) => some .unbounded
    | some ("Lower", some bound) => (ofDatum? bound).map .lower
    | some ("Upper", some bound) => (ofDatum? bound).map .upper
    | some ("Both", some (.list [low, high])) => return .both (← ofDatum? low) (← ofDatum? high)
    | _ => none

namespace Stmt

variable {ε : Type} [Stored ε]

mutual

def write : Stmt ε → Datum
  | .assign target op value =>
    .tagged "Assignment" <|
      .record [("lhs", toDatum target), ("op", toDatum op), ("rhs", toDatum value)]
  | .tilde outcome distribution args truncation =>
    .tagged "Tilde" <|
      .record [("arg", toDatum outcome), ("distribution", .text distribution),
        ("args", toDatum args), ("truncation", toDatum truncation)]
  | .targetPlus amount => .tagged "TargetPlusAssign" (toDatum amount)
  | .incrementLogProb amount => .tagged "IncrementLogProb" (toDatum amount)
  | .call kind name args => .taggedList "NRFunApp" [toDatum kind, .text name, toDatum args]
  | .forLoop var lower upper body =>
    .tagged "For" <|
      .record [("var", .text var), ("lower", toDatum lower), ("upper", toDatum upper),
        ("body", write body)]
  | .whileLoop test body =>
    .tagged "While" <| .record [("cond", toDatum test), ("body", write body)]
  | .branch test yes no =>
    .tagged "IfThenElse" <|
      .record [("cond", toDatum test), ("then", write yes), ("els", writeOption no)]
  | .block body => .tagged "Block" (.list (writeList body))
  | .print args => .tagged "Print" (toDatum args)
  | .reject args => .tagged "Reject" (toDatum args)
  | .ret value => .tagged "Return" (toDatum value)
  | .breakLoop => .text "Break"
  | .continueLoop => .text "Continue"
  | .skip => .text "Skip"

def writeList : List (Stmt ε) → List Datum
  | []      => []
  | s :: ss => write s :: writeList ss

def writeOption : Option (Stmt ε) → Datum
  | none   => .null
  | some s => write s

end

/-- Reads a statement from data of at most the given depth. -/
def readWithin : Nat → Datum → Option (Stmt ε)
  | 0, _ => none
  | depth + 1, d =>
    match d.toCase? with
    | some ("Assignment", some (.record parts)) =>
      return .assign (← ofDatum? (← parts.lookup "lhs")) (← ofDatum? (← parts.lookup "op"))
        (← ofDatum? (← parts.lookup "rhs"))
    | some ("Tilde", some (.record parts)) =>
      return .tilde (← ofDatum? (← parts.lookup "arg")) (← ofDatum? (← parts.lookup "distribution"))
        (← ofDatum? (← parts.lookup "args")) (← ofDatum? (← parts.lookup "truncation"))
    | some ("TargetPlusAssign", some amount) => (ofDatum? amount).map .targetPlus
    | some ("IncrementLogProb", some amount) => (ofDatum? amount).map .incrementLogProb
    | some ("NRFunApp", some (.list [kind, .text name, args])) =>
      return .call (← ofDatum? kind) name (← ofDatum? args)
    | some ("For", some (.record parts)) =>
      return .forLoop (← ofDatum? (← parts.lookup "var")) (← ofDatum? (← parts.lookup "lower"))
        (← ofDatum? (← parts.lookup "upper")) (← readWithin depth (← parts.lookup "body"))
    | some ("While", some (.record parts)) =>
      return .whileLoop (← ofDatum? (← parts.lookup "cond"))
        (← readWithin depth (← parts.lookup "body"))
    | some ("IfThenElse", some (.record parts)) =>
      return .branch (← ofDatum? (← parts.lookup "cond"))
        (← readWithin depth (← parts.lookup "then"))
        (← match parts.lookup "els" with
          | none | some .null => some none
          | some els => (readWithin depth els).map some)
    | some ("Block", some (.list body)) => (body.mapM (readWithin depth)).map .block
    | some ("Print", some args) => (ofDatum? args).map .print
    | some ("Reject", some args) => (ofDatum? args).map .reject
    | some ("Return", some value) => (ofDatum? value).map .ret
    | _ =>
      match d.toName? with
      | some "Break" => some .breakLoop
      | some "Continue" => some .continueLoop
      | some "Skip" => some .skip
      | _ => none

instance : Stored (Stmt ε) := ⟨write, fun d => readWithin d.depth d⟩

end Stmt

instance {ε : Type} [Stored ε] : Stored (Program ε) where
  toDatum p := .record [("statements", toDatum p.statements)]
  ofDatum? d := do
    match ← d.toFields? ["statements"] with
    | [statements] => return ⟨← ofDatum? statements⟩
    | _ => none

end ModelForm
