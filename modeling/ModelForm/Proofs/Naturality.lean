import ModelForm.Proofs.CanonicalForm
import ModelForm.Proofs.Tagging

/-!
# Passes that do not look at annotations

Three passes move annotations, copy them and drop them, but never look at one. So it does not matter
whether annotations are replaced before or after the pass, whatever they are replaced by:

* `Expr.repair_mapNotes`;
* `Expr.modernize_mapNotes`, for every table;
* `Expr.normalizeGroups_mapNotes` and `Expr.normalizeBound_mapNotes`;
* `Program.canonicalize_mapNotes`, which puts the last two together.

Each pass is a fold, so all that is to be shown is that one step of it commutes.
-/

namespace ModelForm

variable {α β : Type} (f : α → β)

namespace Expr

/-! ## Repair -/

theorem repair_mapNotes (e : Expr α) : (e.mapNotes f).repair.value = e.repair.value.mapNotes f := by
  simp only [repair, value_foldTraced, value_retagStep]
  apply fold_mapNotes
  intro note node
  rw [mapNotes_mk, Node.retag_map]

/-! ## Deprecated calls -/

/-- The only annotation that a step puts anywhere is that of the test of a choice, which its group
gets too. -/
theorem modernCall_mapNotes (table : DeprecationTable) (kind : CallKind) (name : String)
    (args : List (Expr α)) :
    (modernCall table kind name (args.map (mapNotes f))).value =
      (modernCall table kind name args).value.map (mapNotes f) := by
  unfold modernCall
  split
  · rcases args with _ | ⟨test, _ | ⟨yes, _ | ⟨no, _ | ⟨more, rest⟩⟩⟩⟩
    case cons.cons.cons.nil => simp [Node.map]
    all_goals rfl
  · rw [List.isEmpty_map]
    split
    · rfl
    · cases table.rename? kind name <;> rfl

theorem modernizeStep_mapNotes (table : DeprecationTable) (note : α) (node : Node (Expr α)) :
    (modernizeStep table note node).value.mapNotes f =
      (modernizeStep table (f note) (node.map (mapNotes f))).value := by
  cases node with
  | call kind name args =>
    show mapNotes f ⟨note, _⟩ = _
    rw [mapNotes_mk]
    exact congrArg (Expr.mk (f note)) (modernCall_mapNotes f table kind name args).symm
  | _ => exact mapNotes_mk f note _

theorem modernize_mapNotes (table : DeprecationTable) (e : Expr α) :
    ((e.mapNotes f).modernize table).value = (e.modernize table).value.mapNotes f := by
  simp only [modernize, value_foldTraced]
  exact fold_mapNotes (modernizeStep_mapNotes f table) e

end Expr

/-! ## Groups -/

namespace Grouped

def mapNotes (f : α → β) (g : Grouped α) : Grouped β := ⟨g.bare.mapNotes f, g.group.map f⟩

theorem kept_mapNotes (g : Grouped α) : (g.mapNotes f).kept = g.kept.mapNotes f := by
  obtain ⟨bare, group⟩ := g
  cases group with
  | none => rfl
  | some note =>
    simp only [kept, mapNotes, Option.map_some, Expr.node_mapNotes, Node.isOperatorLike_map]
    split
    · rw [Expr.mapNotes_mk, Node.map]
    · rfl

theorem placed_mapNotes (keep : Bool) (g : Grouped α) :
    (g.mapNotes f).placed keep = (g.placed keep).mapNotes f := by
  cases keep with
  | false => rfl
  | true => exact kept_mapNotes f g

theorem ofNode_mapNotes (note : α) (n : Node (Grouped α)) :
    (ofNode note n).mapNotes f = ofNode (f note) (n.map (mapNotes f)) := by
  cases hgroup : n.isGroup with
  | true =>
    cases n with
    | paren inner => cases h : inner.group <;> simp [ofNode, mapNotes, Node.map, h]
    | _ => cases hgroup
  | false =>
    rw [ofNode_of_not_group note hgroup,
      ofNode_of_not_group (f note) (by rw [Node.isGroup_map, hgroup]), mapNotes, Expr.mapNotes_mk,
      Node.map_mapPlaces, Node.mapPlaces_map]
    simp only [placed_mapNotes]
    rfl

theorem ofExpr_mapNotes (e : Expr α) : ofExpr (e.mapNotes f) = (ofExpr e).mapNotes f :=
  Expr.fold_mapNotes (ofNode_mapNotes f) e

end Grouped

namespace Expr

theorem normalizeGroups_mapNotes (e : Expr α) :
    (e.mapNotes f).normalizeGroups = e.normalizeGroups.mapNotes f :=
  congrArg Grouped.bare (Grouped.ofExpr_mapNotes f e)

theorem normalizeBound_mapNotes (e : Expr α) :
    (e.mapNotes f).normalizeBound = e.normalizeBound.mapNotes f := by
  rw [normalizeBound, Grouped.ofExpr_mapNotes, Grouped.kept_mapNotes, normalizeBound]

end Expr

/-! ## Programs -/

section Canonical

variable (families : Catalog) (f : Typed → Typed)

theorem Stmt.canonicalExpr_mapNotes (role : Role) (e : Expr Typed) :
    canonicalExpr families role (e.mapNotes f) = (canonicalExpr families role e).mapNotes f := by
  have hmodern : (e.mapNotes f).modernized families = (e.modernized families).mapNotes f :=
    Expr.modernize_mapNotes f _ e
  cases role with
  | loopBound => rw [canonicalExpr, canonicalExpr, hmodern, Expr.normalizeBound_mapNotes]
  | other => rw [canonicalExpr, canonicalExpr, hmodern, Expr.normalizeGroups_mapNotes]

theorem Stmt.canonical_mapNotes (s : Stmt (Expr Typed)) :
    (s.map (Expr.mapNotes f)).canonical families =
      (s.canonical families).map (Expr.mapNotes f) := by
  rw [canonical_eq, canonical_eq, map, map, ← modernHeads_mapRoles, mapRoles_mapRoles,
    mapRoles_mapRoles]
  congr 2
  funext role e
  exact canonicalExpr_mapNotes families f role e

theorem Program.canonicalize_mapNotes (p : Program (Expr Typed)) :
    ((p.map (Expr.mapNotes f)).canonicalize families).value =
      (p.canonicalize families).value.map (Expr.mapNotes f) := by
  simp only [value_canonicalize, map, List.map_map]
  congr 1
  exact List.map_congr_left fun s _ => Stmt.canonical_mapNotes families f s

end Canonical

end ModelForm
