import ModelForm.Proofs.CanonicalForm
import ModelForm.Proofs.Expressions
import ModelForm.Proofs.Placement

/-!
# Normalized programs

Normalization goes through a program form by form, since the bounds of loops are normalized in a way
of their own. This file compares it with the plain map that normalizes each expression by itself.
They differ in the bounds that are written with operators and stood in groups, at any depth of
nesting, and in nothing else: `RegroupedBounds` says so of two programs, and
`Program.normalizeGroups_bounds` proves it.
-/

namespace ModelForm

/-! ## Bounds of loops -/

namespace Expr

variable {α : Type}

/-- A bound that is written with operators and stood in groups is left in one of them. -/
theorem normalizeBound_of_groups {e : Expr α} {note : α} (hop : e.core.node.isOperatorLike = true)
    (hgroup : e.groups.getLast? = some note) :
    e.normalizeBound = ⟨note, .paren e.normalizeGroups⟩ := by
  have hin : Grouped.groupIn? true e = some note := by
    rw [Grouped.groupIn?, hop, hgroup]
    rfl
  exact Grouped.placed_of_some hin

/-- Any other bound is normalized as if it were no bound. -/
theorem normalizeBound_of_ungrouped {e : Expr α}
    (h : e.core.node.isOperatorLike = true → e.groups = []) :
    e.normalizeBound = e.normalizeGroups := by
  have hin : Grouped.groupIn? true e = none := by
    cases hop : e.core.node.isOperatorLike with
    | false =>
      rw [Grouped.groupIn?, hop]
      rfl
    | true =>
      rw [Grouped.groupIn?, h hop, List.getLast?_nil, ite_self]
  exact Grouped.placed_of_none hin

theorem normalizeIn_of_ungrouped {role : Role} {e : Expr α}
    (h : role = .loopBound → e.core.node.isOperatorLike = true → e.groups = []) :
    e.normalizeIn role = e.normalizeGroups := by
  cases role with
  | loopBound => exact normalizeBound_of_ungrouped (h rfl)
  | other => rfl

end Expr

/-! ## Programs -/

/-- The program `n` is `m` except for the bounds of loops that are written with operators and stand
in groups in `p`. -/
structure RegroupedBounds {α : Type} (p m n : Program (Expr α)) : Prop where
  /-- Apart from expressions the programs are the same. -/
  skeleton_eq : n.skeleton = m.skeleton
  /-- Such a bound is in one group in `n` and in none in `m`. The group carries the annotation of
  the innermost of those in `p`. -/
  grouped : ∀ (i : Nat) (bound : Expr α) (note : α),
    p.expressions[i]? = some (.loopBound, bound) → bound.core.node.isOperatorLike →
    bound.groups.getLast? = some note →
    ∃ bare, m.expressions[i]? = some (.loopBound, bare) ∧ bare.node.isGroup = false ∧
      n.expressions[i]? = some (.loopBound, ⟨note, .paren bare⟩)
  /-- All other expressions are the same. -/
  same : ∀ i : Nat,
    (∀ bound, p.expressions[i]? = some (.loopBound, bound) → bound.core.node.isOperatorLike →
      bound.groups = []) →
    n.expressions[i]? = m.expressions[i]?
  /-- Where there is no such bound the programs are the same. -/
  eq_of_ungrouped :
    (∀ bound, (.loopBound, bound) ∈ p.expressions → bound.core.node.isOperatorLike →
      bound.groups = []) → n = m

namespace Program

theorem value_normalizeGroups_eq_mapRoles (p : Program (Expr Typed)) :
    p.normalizeGroups.value = p.mapRoles Expr.normalizeIn := by
  rw [value_normalizeGroups, mapRoles, funext Stmt.normalizeGroups_eq_mapRoles]

/-- Normalizing a program is normalizing each of its expressions by itself, except that a bound of a
loop keeps one of its groups if it is written with operators. -/
theorem normalizeGroups_bounds (p : Program (Expr Typed)) :
    RegroupedBounds p (Id.run (p.traverse fun e => pure e.normalizeGroups))
      p.normalizeGroups.value := by
  rw [run_traverse, value_normalizeGroups_eq_mapRoles]
  refine ⟨?_, ?_, ?_, ?_⟩
  · rw [skeleton_mapRoles, skeleton_mapRoles]
  · intro i bound note hbound hop hgroup
    refine ⟨bound.normalizeGroups, ?_, Grouped.isGroup_bare bound, ?_⟩
    · rw [expressions_mapRoles, List.getElem?_map, hbound]
      rfl
    · rw [expressions_mapRoles, List.getElem?_map, hbound,
        ← Expr.normalizeBound_of_groups hop hgroup]
      rfl
  · intro i h
    rw [expressions_mapRoles, expressions_mapRoles, List.getElem?_map, List.getElem?_map]
    apply Option.map_congr
    rintro ⟨role, e⟩ hitem
    rw [Expr.normalizeIn_of_ungrouped]
    rintro rfl
    exact h e hitem
  · intro h
    apply mapRoles_congr
    intro role e he
    apply Expr.normalizeIn_of_ungrouped
    rintro rfl
    exact h e he

end Program

end ModelForm
