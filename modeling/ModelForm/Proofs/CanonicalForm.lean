import ModelForm.Canonical
import ModelForm.Proofs.Modern

/-!
# Canonical programs

The passes over a program, seen as plain functions on its statements, and what they do together.

* `Program.canonicalize_heads` — a canonical program is the program it comes from, up to groups,
  with nothing but heads replaced: nothing is lost, repeated or moved.
* `Program.canonicalize_fixed` — a second run of a pass, or of all passes, changes nothing.

Both are statements about one statement at a time: replacing heads does not interfere with replacing
expressions (`Stmt.modernHeads_mapRoles`), so the work is done in the expressions. What is lost or
moved would show in the list of expressions or in the skeleton, which look at the forms of
statements themselves and not through the passes.
-/

namespace ModelForm

namespace Stmt

/-- What the passes make of an expression in a statement. -/
def canonicalExpr (families : Catalog) (role : Role) (e : Expr Typed) : Expr Typed :=
  match role with
  | .loopBound => (e.modernized families).normalizeBound
  | .other     => (e.modernized families).normalizeGroups

def canonical (families : Catalog) (s : Stmt (Expr Typed)) : Stmt (Expr Typed) :=
  (s.modernize (.ofCatalog families)).value.normalizeGroups

variable (families : Catalog)

theorem canonical_eq (s : Stmt (Expr Typed)) :
    s.canonical families =
      (s.mapRoles (canonicalExpr families)).modernHeads (.ofCatalog families) := by
  rw [canonical, value_modernize, normalizeGroups_eq_mapRoles, ← modernHeads_mapRoles, map,
    mapRoles_mapRoles]
  rfl

/-! ## Nothing is lost -/

theorem ungroup_canonicalExpr (role : Role) (e : Expr Typed) :
    (canonicalExpr families role e).ungroup = e.ungroup.modernHeads (.ofCatalog families) := by
  cases role with
  | loopBound => exact (Expr.ungroup_normalizeBound _).trans (Expr.ungroup_modernized families e)
  | other => exact (Expr.ungroup_normalizeGroups _).trans (Expr.ungroup_modernized families e)

theorem expressions_canonical (s : Stmt (Expr Typed)) :
    (s.canonical families).expressions =
      s.expressions.map fun item => (item.1, canonicalExpr families item.1 item.2) := by
  rw [canonical_eq, expressions_modernHeads, expressions_mapRoles]

theorem skeleton_canonical (s : Stmt (Expr Typed)) :
    (s.canonical families).skeleton = s.skeleton.modernHeads (.ofCatalog families) := by
  rw [canonical_eq, skeleton_modernHeads, skeleton_mapRoles]

/-! ## A second run changes nothing -/

theorem normalizeGroups_idem {α : Type} (s : Stmt (Expr α)) :
    s.normalizeGroups.normalizeGroups = s.normalizeGroups := by
  rw [normalizeGroups_eq_mapRoles, normalizeGroups_eq_mapRoles, mapRoles_mapRoles]
  congr 1
  funext role e
  cases role with
  | loopBound => exact Expr.normalizeBound_idem e
  | other => exact Expr.normalizeGroups_idem e

theorem modernize_idem (s : Stmt (Expr Typed)) :
    ((s.modernize (.ofCatalog families)).value.modernize (.ofCatalog families)).value =
      (s.modernize (.ofCatalog families)).value := by
  rw [value_modernize, value_modernize, map, map, ← modernHeads_mapRoles, modernHeads_idem,
    mapRoles_mapRoles]
  congr 2
  funext role e
  exact Expr.modernized_idem families e

/-- Dropping groups from a modern statement leaves a modern one. -/
theorem modernize_canonical (s : Stmt (Expr Typed)) :
    ((s.canonical families).modernize (.ofCatalog families)).value = s.canonical families := by
  rw [value_modernize, canonical_eq, map, ← modernHeads_mapRoles, modernHeads_idem,
    mapRoles_mapRoles]
  congr 2
  funext role e
  cases role with
  | loopBound => exact Expr.modernized_of_ungroup_eq (Expr.ungroup_normalizeBound _)
  | other => exact Expr.modernized_of_ungroup_eq (Expr.ungroup_normalizeGroups _)

theorem canonical_idem (s : Stmt (Expr Typed)) :
    (s.canonical families).canonical families = s.canonical families := by
  rw [canonical, modernize_canonical]
  exact normalizeGroups_idem _

end Stmt

/-! ## Programs -/

namespace Program

def modernHeads {ε : Type} (table : DeprecationTable) (p : Program ε) : Program ε :=
  ⟨p.statements.map (Stmt.modernHeads table)⟩

theorem value_modernize (families : Catalog) (p : Program (Expr Typed)) :
    (p.modernize families).value =
      ⟨p.statements.map fun s => (s.modernize (.ofCatalog families)).value⟩ := by
  simp [modernize, modernizeWith, traverseStmts]

theorem value_normalizeGroups (p : Program (Expr Typed)) :
    p.normalizeGroups.value = ⟨p.statements.map Stmt.normalizeGroups⟩ := rfl

theorem value_canonicalize (families : Catalog) (p : Program (Expr Typed)) :
    (p.canonicalize families).value = ⟨p.statements.map (Stmt.canonical families)⟩ := by
  rw [canonicalize, Traced.value_bind, Traced.value_bind, value_normalizeGroups, value_modernize,
    List.map_map]
  rfl

/-- A program becomes canonical by losing groups and by having heads replaced, those of its
expressions node by node and those of its statements. The expressions stay in their order and in
their roles, with all annotations. The statements stay where they are, with their variables,
distributions, truncations and numbers of expressions. -/
theorem canonicalize_heads (families : Catalog) (p : Program (Expr Typed)) :
    (p.canonicalize families).value.expressions.map (fun item => (item.1, item.2.ungroup)) =
        p.expressions.map (fun item =>
          (item.1, item.2.ungroup.modernHeads (.ofCatalog families))) ∧
      (p.canonicalize families).value.skeleton = p.skeleton.modernHeads (.ofCatalog families) := by
  rw [value_canonicalize]
  refine ⟨?_, ?_⟩
  · rw [expressions, expressions, List.flatMap_map, funext (Stmt.expressions_canonical families),
      ← List.map_flatMap, List.map_map]
    apply List.map_congr_left
    rintro ⟨role, e⟩ -
    exact congrArg (Prod.mk role) (Stmt.ungroup_canonicalExpr families role e)
  · simp only [skeleton, modernHeads, List.map_map]
    congr 1
    exact List.map_congr_left fun s _ => Stmt.skeleton_canonical families s

/-- Each pass, and all passes together, are done after one run, for any catalog. -/
theorem canonicalize_fixed (families : Catalog) (p : Program (Expr Typed)) :
    p.normalizeGroups.value.normalizeGroups.value = p.normalizeGroups.value ∧
      ((p.modernize families).value.modernize families).value = (p.modernize families).value ∧
      ((p.canonicalize families).value.modernize families).value =
        (p.canonicalize families).value ∧
      (p.canonicalize families).value.normalizeGroups.value = (p.canonicalize families).value ∧
      ((p.canonicalize families).value.canonicalize families).value =
        (p.canonicalize families).value := by
  refine ⟨?_, ?_, ?_, ?_, ?_⟩
  · simp only [value_normalizeGroups, List.map_map]
    congr 1
    exact List.map_congr_left fun s _ => Stmt.normalizeGroups_idem s
  · simp only [value_modernize, List.map_map]
    congr 1
    exact List.map_congr_left fun s _ => Stmt.modernize_idem families s
  · simp only [value_canonicalize, value_modernize, List.map_map]
    congr 1
    exact List.map_congr_left fun s _ => Stmt.modernize_canonical families s
  · simp only [value_canonicalize, value_normalizeGroups, List.map_map]
    congr 1
    exact List.map_congr_left fun s _ => Stmt.normalizeGroups_idem _
  · simp only [value_canonicalize, List.map_map]
    congr 1
    exact List.map_congr_left fun s _ => Stmt.canonical_idem families s

end Program

end ModelForm
