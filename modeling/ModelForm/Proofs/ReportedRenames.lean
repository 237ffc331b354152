import ModelForm.Proofs.ChangeLog
import ModelForm.Proofs.RepairedPrograms
import ModelForm.Proofs.Traversals

/-!
# Renamings that a program pass reports

Calls of deprecated functions are renamed at two places: in expressions, and in statement position.
The first report what they do and the second do not. So what modernizing a program reports of
renamings is complete for its expressions, and complete for the program exactly if no call in
statement position is renamed.

* `renaming?`, `DeprecationTable.renaming?` — the renaming that leads from one call to another, and
  the one that a table asks for.
* `Program.exprRenamings`, `Program.stmtRenamings` — the renamings between two programs, found by
  comparing them.
* `Program.renamings_events` — what is reported.
* `Program.renames_reported_iff` — when that is all.
-/

namespace ModelForm

/-! ## Renamings -/

/-- The old and the new name, if a library call has become a library call of another name. -/
def renaming? (before after : CallKind × String) : Option (String × String) :=
  if before.1.isLibrary ∧ after.1.isLibrary ∧ after.2 ≠ before.2 then
    some (before.2, after.2)
  else
    none

/-- The renaming that a table asks for. -/
def DeprecationTable.renaming? (table : DeprecationTable) (call : CallKind × String) :
    Option (String × String) :=
  (table.rename? call.1 call.2).map fun new => (call.2, new.2)

/-- The renaming that an event reports. -/
def Event.renaming? : Event → Option (String × String)
  | .renamed old new => some (old, new)
  | _                => none

def Node.call? {γ : Type} : Node γ → Option (CallKind × String)
  | .call kind name _ => some (kind, name)
  | _                 => none

@[simp] theorem Node.call?_shell {γ : Type} (n : Node γ) : n.shell.call? = n.call? := by
  cases n <;> rfl

theorem renaming?_self (call : CallKind × String) : renaming? call call = none := by
  simp [renaming?]

namespace DeprecationTable

variable (families : Catalog)

/-- A table leads to another name of a library function, if it leads anywhere. -/
theorem renaming?_renamed (call : CallKind × String) :
    ModelForm.renaming? call ((ofCatalog families).renamed call.1 call.2) =
      (ofCatalog families).renaming? call := by
  cases hrename : (ofCatalog families).rename? call.1 call.2 with
  | none => rw [renaming?, renamed, hrename, Option.getD_none, renaming?_self, Option.map_none]
  | some new =>
    obtain ⟨newKind, newName⟩ := new
    have hname := rename?_ne hrename
    obtain ⟨hlibrary, r, -, -, hkind⟩ := rename?_eq_some hrename
    have hnewLibrary : newKind.isLibrary := by
      rw [hkind]
      split
      · rfl
      · exact hlibrary
    simp [renamed, renaming?, hrename, ModelForm.renaming?, hlibrary, hnewLibrary, hname]

theorem renaming?_get_lp (kind : CallKind) :
    (ofCatalog families).renaming? (kind, "get_lp") = none := by
  rw [renaming?, rename?_eq_none (fun r hr => (deprecated_ne hr).2.1 rfl), Option.map_none]

theorem renaming?_if_else (kind : CallKind) :
    (ofCatalog families).renaming? (kind, "if_else") = none := by
  rw [renaming?, rename?_if_else, Option.map_none]

theorem renaming?_eq_none_iff {table : DeprecationTable} {call : CallKind × String} :
    table.renaming? call = none ↔ ¬ (call.1.isLibrary ∧ table.Deprecates call.2) := by
  rw [renaming?, Option.map_eq_none_iff, ← isSome_rename?_iff, Option.not_isSome_iff_eq_none]

end DeprecationTable

/-! ## Heads -/

/-- A head is renamed exactly if it is a call that the table renames. -/
theorem renaming?_modernHead (families : Catalog) (s : Shell) :
    (s.call?.bind fun old => (s.modernHead (.ofCatalog families)).call?.bind fun new =>
      renaming? old new) = s.call?.bind (DeprecationTable.ofCatalog families).renaming? := by
  cases s with
  | call kind name places =>
    obtain ⟨rfl, rfl, -, h⟩ | ⟨test, yes, no, rfl, -, rfl, h⟩ | ⟨-, -, h⟩ :=
      Node.modernHead_call (.ofCatalog families) kind name places
    · rw [h]
      simp [Node.call?, renaming?, CallKind.isLibrary, CallKind.origin?,
        DeprecationTable.renaming?_get_lp]
    · rw [h]
      exact (DeprecationTable.renaming?_if_else families kind).symm
    · rw [h]
      exact DeprecationTable.renaming?_renamed families (kind, name)
  | _ => rfl

/-- What is reported of a head is a renaming exactly if it is a call that the table renames. -/
theorem Event.renaming?_ofReplacement? (families : Catalog) (s : Shell) :
    (ofReplacement? s (s.modernHead (.ofCatalog families))).bind renaming? =
      s.call?.bind (DeprecationTable.ofCatalog families).renaming? := by
  cases s with
  | call kind name places =>
    obtain ⟨rfl, rfl, -, h⟩ | ⟨test, yes, no, rfl, -, rfl, h⟩ | ⟨-, -, h⟩ :=
      Node.modernHead_call (.ofCatalog families) kind name places
    · rw [h]
      simp [Node.call?, ofReplacement?, renaming?, DeprecationTable.renaming?_get_lp]
    · rw [h]
      exact (DeprecationTable.renaming?_if_else families kind).symm
    · rw [h, Node.call?, Option.bind_some, DeprecationTable.renaming?]
      cases hrename : (DeprecationTable.ofCatalog families).rename? kind name with
      | none => simp [DeprecationTable.renamed, hrename, ofReplacement?]
      | some new =>
        obtain ⟨newKind, newName⟩ := new
        have hname := DeprecationTable.rename?_ne hrename
        obtain ⟨-, r, hr, -⟩ := DeprecationTable.rename?_eq_some hrename
        simp [DeprecationTable.renamed, hrename, ofReplacement?, renaming?, hname,
          (deprecated_ne hr).2.1]
  | _ => rfl

/-! ## Expressions -/

namespace Expr

variable {α : Type}

/-- The calls of a tree in post-order, without their arguments. -/
def calls (e : Expr α) : List (CallKind × String) :=
  e.places.filterMap fun path => (e.descend? path).bind fun s => s.node.call?

/-- The renamings that lead from one tree to the other, in post-order of the first. -/
def renamings (before after : Expr α) : List (String × String) :=
  before.places.filterMap fun path =>
    (before.descend? path).bind fun s => (after.descend? (before.placeAfter path)).bind fun t =>
      s.node.call?.bind fun old => t.node.call?.bind fun new => renaming? old new

theorem filterMap_calls {δ : Type} (f : CallKind × String → Option δ) (e : Expr α) :
    e.calls.filterMap f =
      e.places.filterMap fun path => (e.descend? path).bind fun s => s.node.call?.bind f := by
  rw [calls, List.filterMap_filterMap]
  congr 1
  funext path
  exact Option.bind_assoc ..

/-- Modernizing a tree renames the calls that the table renames. -/
theorem renamings_modernized (families : Catalog) (e : Expr α) :
    e.renamings (e.modernized families) =
      e.calls.filterMap (DeprecationTable.ofCatalog families).renaming? := by
  rw [filterMap_calls]
  apply filterMap_places_congr
  intro path s hs
  have hhead := renaming?_modernHead families s.node.shell
  rw [← shell_modernized, Node.call?_shell, Node.call?_shell] at hhead
  rw [modernized, descend?_modernize _ hs]
  exact hhead

/-- Modernizing a tree reports the renamings of the calls that the table renames. -/
theorem renamings_events (families : Catalog) (e : Expr α) :
    (e.modernize (.ofCatalog families)).events.filterMap Event.renaming? =
      e.calls.filterMap (DeprecationTable.ofCatalog families).renaming? := by
  rw [(modernize_logged families e).events_eq, List.filterMap_filterMap, filterMap_calls]
  simp only [Option.bind_assoc]
  apply filterMap_places_congr
  intro path s hs
  have hreport := Event.renaming?_ofReplacement? families s.node.shell
  rw [← shell_modernized, Node.call?_shell] at hreport
  rw [descend?_modernize _ hs]
  exact hreport

end Expr

/-! ## Statements -/

namespace Stmt

variable {ε φ : Type}

theorem events_traverse (f : ε → Traced φ) (s : Stmt ε) :
    (s.traverse f).events = s.exprs.flatMap fun e => (f e).events := by
  have h := congrArg Traced.events (exprs_traverse f s)
  rwa [Traced.events_map, Traced.events_mapM] at h

/-- The parts of a statement report from left to right, and then the statement itself. -/
theorem events_transform (f : Stmt ε → Traced (Stmt ε)) (s : Stmt ε) :
    (s.transform f).events = (s.parts.flatMap fun c => (c.transform f).events) ++
      (f (s.withParts (s.parts.map fun c => (c.transform f).value))).events := by
  rw [transform_eq, Traced.events_bind, Traced.events_mapM, Traced.value_mapM]

/-- Modernizing statements reports no renamings. -/
theorem renamings_transform (table : DeprecationTable) (s : Stmt ε) :
    (s.transform (modernForm table)).events.filterMap Event.renaming? = [] := by
  have hform (t : Stmt ε) : (t.modernForm table).events.filterMap Event.renaming? = [] := by
    cases t with
    | assign target op value => cases op <;> rfl
    | call kind name args =>
      rw [modernForm]
      split <;> rfl
    | _ => rfl
  induction s using partInduct with
  | step s ih =>
    -- the parts report no renamings by induction, and the form of the statement never does
    rw [events_transform, List.filterMap_append, hform, List.filterMap_flatMap, List.append_nil,
      List.flatMap_eq_nil_iff]
    exact ih

theorem renamings_events (families : Catalog) (s : Stmt (Expr Typed)) :
    (s.modernize (.ofCatalog families)).events.filterMap Event.renaming? =
      s.exprs.flatMap fun e =>
        e.calls.filterMap (DeprecationTable.ofCatalog families).renaming? := by
  rw [modernize, Traced.events_bind, List.filterMap_append, renamings_transform, List.append_nil,
    events_traverse, List.filterMap_flatMap, funext (Expr.renamings_events families)]

/-! ### What has become of a statement -/

theorem value_modernForm_of_isCompound {table : DeprecationTable} {s : Stmt ε}
    (h : s.isCompound = true) : (s.modernForm table).value = s := by
  cases s with
  | forLoop | whileLoop | branch | block => rfl
  | _ => cases h

theorem isCompound_modernForm (table : DeprecationTable) (s : Stmt ε) :
    (s.modernForm table).value.isCompound = s.isCompound := by
  cases s with
  | assign target op value => cases op <;> rfl
  | call kind name args =>
    rw [value_modernForm_call]
    rfl
  | _ => rfl

theorem exprs_modernize (families : Catalog) (s : Stmt (Expr Typed)) :
    (s.modernize (.ofCatalog families)).value.exprs = s.exprs.map (Expr.modernized families) := by
  rw [value_modernize, ← rewrite_modernForm, exprs, expressions_rewrite (expressions_modernForm _)]
  exact exprs_map _ s

theorem statements_modernize (families : Catalog) (s : Stmt (Expr Typed)) :
    (s.modernize (.ofCatalog families)).value.statements =
      s.statements.map fun t => (t.modernize (.ofCatalog families)).value := by
  simp only [value_modernize, ← rewrite_modernForm]
  exact statements_map_rewrite (fun _ => value_modernForm_of_isCompound)
    (isCompound_modernForm (.ofCatalog families)) _ s

/-- A call in statement position is renamed as the table says. -/
theorem call?_modernize (families : Catalog) (s : Stmt (Expr Typed)) :
    (s.modernize (.ofCatalog families)).value.call? =
      s.call?.map fun call => (DeprecationTable.ofCatalog families).renamed call.1 call.2 := by
  rw [value_modernize]
  cases s with
  | assign target op value => cases op <;> rfl
  | ret value => cases value <;> rfl
  | _ => rfl

end Stmt

/-! ## Programs -/

namespace Program

variable {α : Type}

/-- The calls in the expressions of a program, in source order and each expression in post-order. -/
def exprCalls (p : Program (Expr α)) : List (CallKind × String) := p.exprs.flatMap Expr.calls

/-- The renamings in expressions that lead from one program to the other. -/
def exprRenamings (before after : Program (Expr α)) : List (String × String) :=
  (before.exprs.zip after.exprs).flatMap fun (a, b) => a.renamings b

/-- The renamings of calls in statement position that lead from one program to the other. -/
def stmtRenamings (before after : Program (Expr α)) : List (String × String) :=
  (before.allStatements.zip after.allStatements).filterMap fun (s, t) =>
    s.call?.bind fun old => t.call?.bind fun new => renaming? old new

/-- The events of a pass report each renaming that it has made, once. -/
def RenamesReported (before : Program (Expr α)) (after : Traced (Program (Expr α))) : Prop :=
  (after.events.filterMap Event.renaming?).Perm
    (before.exprRenamings after.value ++ before.stmtRenamings after.value)

variable (families : Catalog) (p : Program (Expr Typed))

theorem exprs_modernize :
    (p.modernize families).value.exprs = p.exprs.map (Expr.modernized families) := by
  rw [value_modernize, exprs, exprs, List.flatMap_map, List.map_flatMap]
  exact congrArg (p.statements.flatMap ·) (funext (Stmt.exprs_modernize families))

theorem allStatements_modernize :
    (p.modernize families).value.allStatements =
      p.allStatements.map fun s => (s.modernize (.ofCatalog families)).value := by
  rw [value_modernize, allStatements, allStatements, List.flatMap_map, List.map_flatMap]
  exact congrArg (p.statements.flatMap ·) (funext (Stmt.statements_modernize families))

/-- Modernizing a program reports the renamings of calls in its expressions, and no others. -/
theorem renamings_events :
    (p.modernize families).events.filterMap Event.renaming? =
      p.exprCalls.filterMap (DeprecationTable.ofCatalog families).renaming? := by
  have hevents : (p.modernize families).events = .started .modernize p.size ::
      p.statements.flatMap fun s => (s.modernize (.ofCatalog families)).events := by
    simp [modernize, modernizeWith, traverseStmts]
  rw [hevents, List.filterMap_cons_none rfl, List.filterMap_flatMap,
    funext (Stmt.renamings_events families), exprCalls, exprs, List.filterMap_flatMap,
    List.flatMap_assoc]

/-- The calls in expressions that modernizing a program renames. -/
theorem exprRenamings_modernize :
    p.exprRenamings (p.modernize families).value =
      p.exprCalls.filterMap (DeprecationTable.ofCatalog families).renaming? := by
  rw [exprRenamings, exprs_modernize, ← List.map_prod_left_eq_zip, List.flatMap_map, exprCalls,
    List.filterMap_flatMap]
  exact congrArg (p.exprs.flatMap ·) (funext (Expr.renamings_modernized families))

/-- The calls in statement position that modernizing a program renames. -/
theorem stmtRenamings_modernize :
    p.stmtRenamings (p.modernize families).value =
      p.statementCalls.filterMap (DeprecationTable.ofCatalog families).renaming? := by
  have hstmt (s : Stmt (Expr Typed)) : (s.call?.bind fun old =>
      (s.modernize (.ofCatalog families)).value.call?.bind fun new => renaming? old new) =
        s.call?.bind (DeprecationTable.ofCatalog families).renaming? := by
    rw [Stmt.call?_modernize]
    cases s.call? with
    | none => rfl
    | some call => exact DeprecationTable.renaming?_renamed families call
  rw [stmtRenamings, allStatements_modernize, ← List.map_prod_left_eq_zip, List.filterMap_map,
    statementCalls, List.filterMap_filterMap]
  exact congrArg (p.allStatements.filterMap ·) (funext hstmt)

/-- **The renamings that are reported.** Modernizing a program renames the calls that the table
deprecates, in expressions and in statement position. It reports each renaming in an expression
once, in post-order, and no other. So its events are the renamings that it has made exactly if no
call in statement position is deprecated. -/
theorem renames_reported_iff (families : Catalog) (p : Program (Expr Typed)) :
    p.exprRenamings (p.modernize families).value =
        p.exprCalls.filterMap (DeprecationTable.ofCatalog families).renaming? ∧
      p.stmtRenamings (p.modernize families).value =
        p.statementCalls.filterMap (DeprecationTable.ofCatalog families).renaming? ∧
      (p.modernize families).events.filterMap Event.renaming? =
        p.exprRenamings (p.modernize families).value ∧
      (p.RenamesReported (p.modernize families) ↔ ∀ call ∈ p.statementCalls,
        ¬ (call.1.isLibrary ∧ (DeprecationTable.ofCatalog families).Deprecates call.2)) := by
  have hreported : (p.modernize families).events.filterMap Event.renaming? =
      p.exprRenamings (p.modernize families).value := by
    rw [renamings_events, exprRenamings_modernize]
  refine ⟨exprRenamings_modernize families p, stmtRenamings_modernize families p, hreported, ?_⟩
  have hcomplete : p.RenamesReported (p.modernize families) ↔
      p.stmtRenamings (p.modernize families).value = [] := by
    rw [RenamesReported, hreported]
    constructor
    · -- What is reported is the first half already, so nothing is left for the second.
      intro hperm
      have hlength := hperm.length_eq
      rw [List.length_append] at hlength
      exact List.eq_nil_of_length_eq_zero (by omega)
    · intro hnone
      rw [hnone, List.append_nil]
  rw [hcomplete, stmtRenamings_modernize, List.filterMap_eq_nil_iff]
  exact forall₂_congr fun call _ => DeprecationTable.renaming?_eq_none_iff

/-- A loop around a deprecated function that is called in statement position. -/
def silentLoop : Program (Expr Typed) :=
  ⟨[.whileLoop ⟨.data .int, .var "go"⟩
    (.call .library "multiply_log" [⟨.data .real, .var "x"⟩, ⟨.data .real, .var "y"⟩])]⟩

/-- The call is renamed and nothing is reported. -/
theorem silentLoop_unreported :
    ¬ silentLoop.RenamesReported (silentLoop.modernize Catalog.builtin) := by
  have hcalls : silentLoop.statementCalls = [(.library, "multiply_log")] := rfl
  have hrename : (DeprecationTable.ofCatalog Catalog.builtin).renaming?
      (.library, "multiply_log") = some ("multiply_log", "lmultiply") := by
    rw [DeprecationTable.renaming?, DeprecationTable.rename?, DeprecationTable.getElem?_ofCatalog]
    decide
  intro hperm
  have hlength := hperm.length_eq
  rw [renamings_events, exprRenamings_modernize, stmtRenamings_modernize, hcalls,
    List.length_append] at hlength
  simp [hrename] at hlength

end Program

end ModelForm
