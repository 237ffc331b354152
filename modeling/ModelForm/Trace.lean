import ModelForm.Call
import ModelForm.Expr.Fold
import ModelForm.Quoted

/-!
# Traces

What the passes report. A pass over a whole program announces itself, and each construct that it
replaces is an event of its own. A `Traced` value is a value with the events of its making, the
earliest first.

`Expr.foldTraced` is the fold whose steps may report: the events of a tree are those of its children
from left to right and then those of its root.
-/

namespace ModelForm

/-! ## Events -/

inductive Pass where
  | repair
  | modernize
  | normalizeGroups
  | canonicalize
  deriving DecidableEq, Repr

def Pass.name : Pass → String
  | .repair          => "repair_syntax"
  | .modernize       => "replace_deprecated"
  | .normalizeGroups => "normalize_parens"
  | .canonicalize    => "canonicalize"

/-- What a pass reports. -/
inductive Event where
  /-- A pass starts on a program of so many top-level statements. -/
  | started (pass : Pass) (statements : Nat)
  /-- A call got the kind that its name asks for. -/
  | retagged (name : String) (before after : CallKind)
  /-- A deprecated function got its new name. -/
  | renamed (old new : String)
  /-- The log density was asked for by its old name. -/
  | targetRead
  /-- A choice written as a call became a conditional. -/
  | choiceReplaced
  /-- The log density was added to by its old name. -/
  | targetIncremented
  /-- A density of a family took up its link function, or the whole linear model. -/
  | fused (family name : String)
  /-- A call was replaced by an equal expression, which may be a call too. -/
  | identity (callee : String) (result : Option String)
  deriving DecidableEq, Repr

namespace Event

/-- What is said about an event besides its fields; a started pass says nothing but its name. -/
def message? : Event → Option String
  | .started ..        => none
  | .retagged ..       => some "call retagged"
  | .renamed ..        => some "deprecated function renamed"
  | .targetRead        => some "get_lp() rewritten to target()"
  | .choiceReplaced    => some "if_else call rewritten to conditional expression"
  | .targetIncremented => some "increment_log_prob rewritten to target +="
  | .fused ..          => some "distribution call fused"
  | .identity ..       => some "identity applied"

/-- A name that may be missing, as diagnostics show it. -/
def showName? : Option String → String
  | none      => "None"
  | some name => "Some(" ++ quote name ++ ")"

def details : Event → List (String × String)
  | .started _ statements => [("statements", toString statements)]
  | .retagged name before after =>
    [("name", name), ("from", before.describe), ("to", after.describe)]
  | .renamed old new => [("old", old), ("new", new)]
  | .fused family name => [("family", family), ("fused", name)]
  | .identity callee result => [("from", callee), ("to", showName? result)]
  | .targetRead | .choiceReplaced | .targetIncremented => []

def fields (e : Event) : List (String × String) :=
  (e.message?.map fun message => ("message", message)).toList ++ e.details

def pass? : Event → Option Pass
  | .started pass _ => some pass
  | _               => none

/-- How much detail has to be asked for until the event is shown. -/
def level (e : Event) : String := if e.pass?.isSome then "DEBUG" else "TRACE"

end Event

/-! ## Traced values -/

/-- A value and the events of its making, the earliest first. -/
structure Traced (β : Type) where
  value : β
  events : List Event

namespace Traced

variable {β γ δ : Type}

instance : Monad Traced where
  pure value := ⟨value, []⟩
  bind x f := ⟨(f x.value).value, x.events ++ (f x.value).events⟩

theorem map_id (x : Traced β) : id <$> x = x := by
  show (⟨x.value, x.events ++ []⟩ : Traced β) = x
  rw [List.append_nil]

theorem bind_assoc (x : Traced β) (f : β → Traced γ) (g : γ → Traced δ) :
    x >>= f >>= g = x >>= fun value => f value >>= g := by
  show (⟨(g (f x.value).value).value, (x.events ++ _) ++ _⟩ : Traced δ) = ⟨_, x.events ++ (_ ++ _)⟩
  rw [List.append_assoc]
  rfl

instance : LawfulMonad Traced := LawfulMonad.mk' Traced map_id (fun _ _ => rfl) bind_assoc

def emit (event : Event) : Traced Unit := ⟨(), [event]⟩

/-! ## Recording

Events are collected in an array while a tree is folded. -/

/-- The value, with its events added to those that are recorded already. -/
def record (x : Traced β) : StateM (Array Event) β := fun events =>
  (x.value, x.events.foldl Array.push events)

/-- The value with the events of a recording that starts with none. -/
def ofRecording (x : StateM (Array Event) β) : Traced β :=
  let recorded := x #[]
  ⟨recorded.1, recorded.2.toList⟩

theorem record_bind (x : Traced β) (f : β → Traced γ) :
    (x >>= f).record = x.record >>= fun value => (f value).record := by
  funext events
  show (_, (x.events ++ (f x.value).events).foldl Array.push events) = _
  rw [List.foldl_append]
  rfl

theorem ofRecording_record (x : Traced β) : ofRecording x.record = x := by
  show (⟨x.value, (x.events.foldl Array.push #[]).toList⟩ : Traced β) = x
  simp

end Traced

/-! ## Traced folds -/

namespace Expr

variable {α R : Type}

/-- The fold whose steps may report. -/
def foldTraced (step : α → Node R → Traced R) (e : Expr α) : Traced R :=
  .ofRecording <| e.foldWith (fun e => pure e.note) fun note results => (step note results).record

theorem foldWith_record (step : α → Node R → Traced R) (e : Expr α) :
    (e.foldWith (fun e => pure e.note) fun note results => (step note results).record) =
      (e.para fun e visits => visits.traverse id >>= step e.note : Traced R).record := by
  induction e using induct with
  | step e ih =>
    rw [foldWith_eq, Node.traverse_congr ih, para_eq, Traced.record_bind, Node.traverse_map,
      Node.traverse_hom Traced.record (fun _ => rfl) Traced.record_bind]
    rfl

/-- A traced fold unfolds at the root, and the children report first. -/
theorem foldTraced_eq (step : α → Node R → Traced R) (e : Expr α) :
    e.foldTraced step = e.node.traverse (foldTraced step) >>= step e.note := by
  have h : foldTraced step = para fun e visits => visits.traverse id >>= step e.note := by
    funext e
    rw [foldTraced, foldWith_record, Traced.ofRecording_record]
  rw [h, para_eq, Node.traverse_map]
  rfl

end Expr

end ModelForm
