import ModelForm.Call
import ModelForm.Operator

/-!
# Statements and programs

Statements over expressions of any type `ε`, and programs, which are lists of statements.

* `Stmt.traverseRoles` visits every expression once, in source order, and tells the bounds of loops
  from all other expressions; `Stmt.traverse` and `Stmt.map` are what remains when the difference
  does not matter.
* `Stmt.transform` visits every statement once, inner statements before outer ones.
-/

namespace ModelForm

/-! ## Parts of statements -/

inductive AssignOp where
  /-- The target becomes the value. -/
  | plain
  /-- The arrow, an old spelling of the plain assignment. -/
  | arrow
  /-- The target becomes the operator's result on target and value. -/
  | compound (op : Operator)
  deriving DecidableEq, Repr

/-- The bounds to which a sampling statement truncates its distribution. -/
inductive Truncation (ε : Type) where
  | unbounded
  | lower (bound : ε)
  | upper (bound : ε)
  | both (low high : ε)
  deriving DecidableEq, Repr

namespace Truncation

def traverse {m : Type → Type v} [Monad m] {ε φ : Type} (f : ε → m φ) :
    Truncation ε → m (Truncation φ)
  | .unbounded        => pure .unbounded
  | .lower bound      => return .lower (← f bound)
  | .upper bound      => return .upper (← f bound)
  | .both low high    => return .both (← f low) (← f high)

def same {ε : Type} [BEq ε] : Truncation ε → Truncation ε → Bool
  | .unbounded, .unbounded => true
  | .lower a, .lower b     => a == b
  | .upper a, .upper b     => a == b
  | .both a b, .both c d   => a == c && b == d
  | _, _                   => false

end Truncation

/-- What an expression is to its statement. -/
inductive Role where
  /-- A bound of a counting loop. -/
  | loopBound
  /-- Anything else. -/
  | other
  deriving DecidableEq, Repr

/-! ## Statements -/

/-- A statement over expressions of type `ε`. -/
inductive Stmt (ε : Type) where
  | assign (target : ε) (op : AssignOp) (value : ε)
  /-- The outcome is distributed as a family with the given arguments. -/
  | tilde (outcome : ε) (distribution : String) (args : List ε) (truncation : Truncation ε)
  /-- Adds to the log density of the model. -/
  | targetPlus (amount : ε)
  /-- An old spelling of `targetPlus`. -/
  | incrementLogProb (amount : ε)
  /-- A call whose value, if any, is not used. -/
  | call (kind : CallKind) (name : String) (args : List ε)
  | forLoop (var : String) (lower upper : ε) (body : Stmt ε)
  | whileLoop (test : ε) (body : Stmt ε)
  | branch (test : ε) (yes : Stmt ε) (no : Option (Stmt ε))
  | block (body : List (Stmt ε))
  | print (args : List ε)
  | reject (args : List ε)
  | ret (value : Option ε)
  | breakLoop
  | continueLoop
  | skip

namespace Stmt

variable {ε φ : Type} {m : Type → Type v} [Monad m]

/-! ## Expressions of a statement -/

mutual

/-- The statement with each expression replaced by an action's result. The expressions are visited
in the order in which they are written. -/
def traverseRoles (f : Role → ε → m φ) : Stmt ε → m (Stmt φ)
  | .assign target op value => return .assign (← f .other target) op (← f .other value)
  | .tilde outcome distribution args truncation =>
    return .tilde (← f .other outcome) distribution (← args.mapM (f .other))
      (← truncation.traverse (f .other))
  | .targetPlus amount => return .targetPlus (← f .other amount)
  | .incrementLogProb amount => return .incrementLogProb (← f .other amount)
  | .call kind name args => return .call kind name (← args.mapM (f .other))
  | .forLoop var lower upper body =>
    return .forLoop var (← f .loopBound lower) (← f .loopBound upper) (← traverseRoles f body)
  | .whileLoop test body => return .whileLoop (← f .other test) (← traverseRoles f body)
  | .branch test yes no =>
    return .branch (← f .other test) (← traverseRoles f yes) (← traverseRolesOption f no)
  | .block body => return .block (← traverseRolesList f body)
  | .print args => return .print (← args.mapM (f .other))
  | .reject args => return .reject (← args.mapM (f .other))
  | .ret none => pure (.ret none)
  | .ret (some value) => return .ret (some (← f .other value))
  | .breakLoop => pure .breakLoop
  | .continueLoop => pure .continueLoop
  | .skip => pure .skip

def traverseRolesList (f : Role → ε → m φ) : List (Stmt ε) → m (List (Stmt φ))
  | []      => pure []
  | s :: ss => return (← traverseRoles f s) :: (← traverseRolesList f ss)

def traverseRolesOption (f : Role → ε → m φ) : Option (Stmt ε) → m (Option (Stmt φ))
  | none   => pure none
  | some s => return some (← traverseRoles f s)

end

def traverse (f : ε → m φ) : Stmt ε → m (Stmt φ) := traverseRoles fun _ => f

/-- The statement with each expression replaced according to its role. -/
def mapRoles (f : Role → ε → φ) (s : Stmt ε) : Stmt φ :=
  Id.run (s.traverseRoles fun role e => pure (f role e))

def map (f : ε → φ) (s : Stmt ε) : Stmt φ := s.mapRoles fun _ => f

/-! ## Statements of a statement -/

mutual

/-- Applies an action to every statement, inner ones first and from left to right. The action is
given each statement with its inner statements replaced already. -/
def transform (f : Stmt ε → m (Stmt ε)) : Stmt ε → m (Stmt ε)
  | .forLoop var lower upper body => do f (.forLoop var lower upper (← transform f body))
  | .whileLoop test body => do f (.whileLoop test (← transform f body))
  | .branch test yes no => do f (.branch test (← transform f yes) (← transformOption f no))
  | .block body => do f (.block (← transformList f body))
  | s => f s

def transformList (f : Stmt ε → m (Stmt ε)) : List (Stmt ε) → m (List (Stmt ε))
  | []      => pure []
  | s :: ss => return (← transform f s) :: (← transformList f ss)

def transformOption (f : Stmt ε → m (Stmt ε)) : Option (Stmt ε) → m (Option (Stmt ε))
  | none   => pure none
  | some s => return some (← transform f s)

end

/-! ## Equality -/

mutual

/-- Equal statements have the same form and equal parts. -/
def same [BEq ε] : Stmt ε → Stmt ε → Bool
  | .assign a op b, .assign c op' d => a == c && op == op' && b == d
  | .tilde a x as t, .tilde b y bs u => a == b && x == y && as == bs && t.same u
  | .targetPlus a, .targetPlus b => a == b
  | .incrementLogProb a, .incrementLogProb b => a == b
  | .call j x as, .call k y bs => j == k && x == y && as == bs
  | .forLoop x a b s, .forLoop y c d t => x == y && a == c && b == d && same s t
  | .whileLoop a s, .whileLoop b t => a == b && same s t
  | .branch a s s', .branch b t t' => a == b && same s t && sameOption s' t'
  | .block ss, .block ts => sameList ss ts
  | .print as, .print bs => as == bs
  | .reject as, .reject bs => as == bs
  | .ret a, .ret b => a == b
  | .breakLoop, .breakLoop => true
  | .continueLoop, .continueLoop => true
  | .skip, .skip => true
  | _, _ => false

def sameList [BEq ε] : List (Stmt ε) → List (Stmt ε) → Bool
  | [], []           => true
  | s :: ss, t :: ts => same s t && sameList ss ts
  | _, _             => false

def sameOption [BEq ε] : Option (Stmt ε) → Option (Stmt ε) → Bool
  | none, none     => true
  | some s, some t => same s t
  | _, _           => false

end

instance [BEq ε] : BEq (Stmt ε) := ⟨same⟩

end Stmt

/-! ## Programs -/

/-- A program: its statements in order. -/
structure Program (ε : Type) where
  statements : List (Stmt ε)

namespace Program

variable {ε φ : Type} {m : Type → Type v} [Monad m]

/-- The number of top-level statements. -/
def size (p : Program ε) : Nat := p.statements.length

def traverse (f : ε → m φ) (p : Program ε) : m (Program φ) :=
  return ⟨← p.statements.mapM (Stmt.traverse f)⟩

/-- The program with each top-level statement replaced by an action's result, in order. -/
def traverseStmts (f : Stmt ε → m (Stmt φ)) (p : Program ε) : m (Program φ) :=
  return ⟨← p.statements.mapM f⟩

instance [BEq ε] : BEq (Program ε) := ⟨fun p q => p.statements == q.statements⟩

end Program

end ModelForm
