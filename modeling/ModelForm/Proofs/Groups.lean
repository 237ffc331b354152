import ModelForm.Grouping
import ModelForm.Proofs.Mapping

/-!
# What normalizing groups keeps

A node has two kinds of places for its children: those where a group may matter, which are the
operands of operators and the base of an indexed expression, and all others. `Node.mapPlaces` maps
over a node and tells them apart, as `Stmt.mapRoles` does for a statement. Normalization is such a
map at every node that is not a group (`Grouped.ofExpr_of_not_group`), and everything here follows
from that:

* `Expr.ungroup_normalizeGroups`, `Expr.ungroup_normalizeBound` — only groups are dropped.
* `Expr.normalizeGroups_idem`, `Expr.normalizeBound_idem` — a second run changes nothing.

Statements are gone through form by form; `Stmt.normalizeGroups_eq_mapRoles` says that this is a map
by roles.
-/

namespace ModelForm

/-! ## Places -/

namespace Node

variable {γ δ ε : Type}

def isGroup : Node γ → Bool
  | .paren _ => true
  | _        => false

/-- The node with each child replaced according to whether a group matters in its place. -/
def mapPlaces (f : Bool → γ → δ) : Node γ → Node δ
  | .indexed base indices => .indexed (f true base) (indices.map (Index.map (f false)))
  | node                  => node.map (f node.isOperatorLike)

/-- Whether a group matters around the child at the given position. -/
def groupMatters (n : Node γ) (i : Nat) : Bool :=
  match n with
  | .indexed .. => i == 0
  | n           => n.isOperatorLike

@[simp] theorem isGroup_map (f : γ → δ) (n : Node γ) : (n.map f).isGroup = n.isGroup := by
  cases n <;> rfl

@[simp] theorem isGroup_mapPlaces (f : Bool → γ → δ) (n : Node γ) :
    (n.mapPlaces f).isGroup = n.isGroup := by
  cases n <;> rfl

@[simp] theorem isOperatorLike_mapPlaces (f : Bool → γ → δ) (n : Node γ) :
    (n.mapPlaces f).isOperatorLike = n.isOperatorLike := by
  cases n with
  | indexed base indices => rfl
  | _ => simp only [mapPlaces, isOperatorLike_map]

@[simp] theorem groupMatters_mapPlaces (f : Bool → γ → δ) (n : Node γ) (i : Nat) :
    (n.mapPlaces f).groupMatters i = n.groupMatters i := by
  cases n with
  | indexed base indices => rfl
  | call kind name args => exact isOperatorLike_mapPlaces f (.call kind name args)
  | _ => rfl

/-- A function that does not look at the place gives a plain map. -/
theorem mapPlaces_const (f : γ → δ) (n : Node γ) : (n.mapPlaces fun _ => f) = n.map f := by
  cases n <;> rfl

theorem map_mapPlaces (f : Bool → γ → δ) (g : δ → ε) (n : Node γ) :
    (n.mapPlaces f).map g = n.mapPlaces fun keep c => g (f keep c) := by
  cases n with
  | indexed base indices =>
    simp only [mapPlaces, map, List.map_map]
    congr 1
    exact List.map_congr_left fun i _ => Index.map_map _ g i
  | _ => simp only [mapPlaces, map_map, Function.comp_def]

@[simp] theorem shell_mapPlaces (f : Bool → γ → δ) (n : Node γ) :
    (n.mapPlaces f).shell = n.shell :=
  (map_mapPlaces f _ n).trans (mapPlaces_const _ n)

theorem mapPlaces_map (f : γ → δ) (g : Bool → δ → ε) (n : Node γ) :
    (n.map f).mapPlaces g = n.mapPlaces fun keep c => g keep (f c) := by
  cases n with
  | indexed base indices =>
    simp only [mapPlaces, map, List.map_map]
    congr 1
    exact List.map_congr_left fun i _ => Index.map_map f _ i
  | call kind name args =>
    have h := isOperatorLike_map f (.call kind name args)
    simp only [map] at h
    simp only [mapPlaces, map, h, List.map_map, Function.comp_def]
  | _ => rfl

theorem mapPlaces_mapPlaces (f : Bool → γ → δ) (g : Bool → δ → ε) (n : Node γ) :
    (n.mapPlaces f).mapPlaces g = n.mapPlaces fun keep c => g keep (f keep c) := by
  cases n with
  | indexed base indices =>
    simp only [mapPlaces, List.map_map]
    congr 1
    exact List.map_congr_left fun i _ => Index.map_map _ _ i
  | call kind name args =>
    have h := isOperatorLike_map (f (isOperatorLike (.call kind name args))) (.call kind name args)
    simp only [map] at h
    simp only [mapPlaces, map, h, List.map_map, Function.comp_def]
  | _ => rfl

theorem mapPlaces_congr {f g : Bool → γ → δ} {n : Node γ}
    (h : ∀ c ∈ n.children, ∀ keep, f keep c = g keep c) : n.mapPlaces f = n.mapPlaces g := by
  cases n with
  | indexed base indices =>
    have hbase : f true base = g true base := h base List.mem_cons_self true
    have hindices : indices.map (Index.map (f false)) = indices.map (Index.map (g false)) :=
      List.map_congr_left fun i hi => Index.map_congr fun c hc =>
        h c (List.mem_cons_of_mem base (List.mem_flatMap_of_mem hi hc)) false
    simp only [mapPlaces, hbase, hindices]
  | _ =>
    simp only [mapPlaces]
    exact map_congr fun c hc => h c hc _

/-- The child at a position is replaced according to that position. -/
theorem children_mapPlaces (f : Bool → γ → δ) (n : Node γ) (i : Nat) :
    (n.mapPlaces f).children[i]? = n.children[i]?.map (f (n.groupMatters i)) := by
  cases n with
  | indexed base indices =>
    cases i with
    | zero => rfl
    | succ i =>
      simp only [mapPlaces, children, List.getElem?_cons_succ, List.flatMap_map,
        Index.children_map, groupMatters, ← List.map_flatMap, List.getElem?_map]
      rfl
  | _ =>
    simp only [mapPlaces, children_map, List.getElem?_map]
    rfl

end Node

/-! ## Trees without groups -/

namespace Expr

variable {α : Type}

/-- Induction that sets groups apart from all other nodes. -/
theorem groupInduct {motive : Expr α → Prop}
    (paren : ∀ note inner, motive inner → motive ⟨note, .paren inner⟩)
    (other : ∀ e, e.node.isGroup = false → (∀ c ∈ e.node.children, motive c) → motive e)
    (e : Expr α) : motive e := by
  induction e using induct with
  | step e ih =>
    obtain ⟨note, node⟩ := e
    cases node with
    | paren inner => exact paren note inner (ih inner (List.mem_singleton.mpr rfl))
    | _ => exact other _ rfl ih

/-- The tree with all groups taken away. What they held keeps its annotations. -/
def ungroup : Expr α → Expr α :=
  para fun e results =>
    match results with
    | .paren inner => inner
    | node         => ⟨e.note, node⟩

@[simp] theorem ungroup_paren (note : α) (inner : Expr α) :
    ungroup ⟨note, .paren inner⟩ = inner.ungroup := by
  rw [ungroup, para_eq]
  rfl

theorem ungroup_of_not_group {e : Expr α} (h : e.node.isGroup = false) :
    e.ungroup = ⟨e.note, e.node.map ungroup⟩ := by
  rw [ungroup, para_eq]
  obtain ⟨note, node⟩ := e
  cases node with
  | paren inner => cases h
  | _ => rfl

/-- Groups have no part in what all shells have in common, if the shell of a group has it too. -/
theorem all_ungroup {Q : Shell → Prop} (hgroup : Q (.paren ())) (e : Expr α) :
    (e.ungroup.All fun s => Q s.node.shell) ↔ e.All fun s => Q s.node.shell := by
  induction e using groupInduct with
  | paren note inner ih =>
    rw [ungroup_paren, ih, all_iff (e := ⟨note, .paren inner⟩)]
    constructor
    · intro hinner
      refine ⟨hgroup, fun c hc => ?_⟩
      rwa [List.mem_singleton.mp hc]
    · exact fun h => h.2 inner (List.mem_singleton.mpr rfl)
  | other e h ih =>
    rw [ungroup_of_not_group h, all_iff, all_iff (e := e), Node.shell_map, Node.children_map,
      List.forall_mem_map]
    exact and_congr_right fun _ => forall₂_congr ih

end Expr

/-! ## Normalization by places -/

namespace Grouped

variable {α : Type}

/-- The expression as it stands in a place where a group matters or does not. -/
def placed (keep : Bool) (g : Grouped α) : Expr α := if keep then g.kept else g.bare

theorem ofExpr_eq (e : Expr α) : ofExpr e = ofNode e.note (e.node.map ofExpr) := by
  rw [ofExpr, Expr.fold_eq]
  rfl

theorem ofExpr_paren (note : α) (inner : Expr α) :
    ofExpr ⟨note, .paren inner⟩ = ⟨(ofExpr inner).bare, some ((ofExpr inner).group.getD note)⟩ := by
  rw [ofExpr_eq]
  rfl

theorem ofNode_of_not_group (note : α) {n : Node (Grouped α)} (h : n.isGroup = false) :
    ofNode note n = ⟨⟨note, n.mapPlaces placed⟩, none⟩ := by
  cases n with
  | paren inner => cases h
  | indexed base indices => rfl
  | call kind name args =>
    simp only [ofNode, Node.mapPlaces]
    cases (Node.call kind name args).isOperatorLike <;> rfl
  | _ => rfl

/-- At a node that is not a group, normalization normalizes the children for their places. -/
theorem ofExpr_of_not_group {e : Expr α} (h : e.node.isGroup = false) :
    ofExpr e = ⟨⟨e.note, e.node.mapPlaces fun keep c => (ofExpr c).placed keep⟩, none⟩ := by
  rw [ofExpr_eq, ofNode_of_not_group _ (by rw [Node.isGroup_map, h]), Node.mapPlaces_map]

/-- What is left of an expression is never a group. -/
theorem isGroup_bare (e : Expr α) : (ofExpr e).bare.node.isGroup = false := by
  induction e using Expr.groupInduct with
  | paren note inner ih => rw [ofExpr_paren, ih]
  | other e h _ =>
    rw [ofExpr_of_not_group h]
    simpa using h

/-! ### Only groups are dropped -/

theorem ungroup_kept (g : Grouped α) : g.kept.ungroup = g.bare.ungroup := by
  unfold kept
  split
  · split
    · exact Expr.ungroup_paren _ _
    · rfl
  · rfl

theorem ungroup_placed (keep : Bool) (g : Grouped α) :
    (g.placed keep).ungroup = g.bare.ungroup := by
  cases keep with
  | false => rfl
  | true => exact ungroup_kept g

theorem ungroup_bare (e : Expr α) : (ofExpr e).bare.ungroup = e.ungroup := by
  induction e using Expr.groupInduct with
  | paren note inner ih => rw [ofExpr_paren, Expr.ungroup_paren, ih]
  | other e h ih =>
    have hbare := isGroup_bare e
    rw [ofExpr_of_not_group h] at hbare ⊢
    rw [Expr.ungroup_of_not_group hbare, Expr.ungroup_of_not_group h, Node.map_mapPlaces,
      ← Node.mapPlaces_const Expr.ungroup]
    have hchildren : ∀ c ∈ e.node.children, ∀ keep,
        ((ofExpr c).placed keep).ungroup = c.ungroup :=
      fun c hc keep => (ungroup_placed keep _).trans (ih c hc)
    rw [Node.mapPlaces_congr hchildren]

/-! ### A second run changes nothing -/

/-- In each place, what is normalized already stays as it is. -/
theorem placed_ofExpr_placed {g : Grouped α} (h : ofExpr g.bare = ⟨g.bare, none⟩) (keep : Bool) :
    (ofExpr (g.placed keep)).placed keep = g.placed keep := by
  have hbare : (ofExpr g.bare).kept = g.bare := by
    rw [h]
    rfl
  cases keep with
  | false =>
    show (ofExpr g.bare).bare = g.bare
    rw [h]
  | true =>
    show (ofExpr g.kept).kept = g.kept
    obtain ⟨bare, group⟩ := g
    cases group with
    | none => exact hbare
    | some note =>
      cases hop : bare.node.isOperatorLike with
      | false =>
        have hkept : kept ⟨bare, some note⟩ = bare := by simp [kept, hop]
        rw [hkept]
        exact hbare
      | true =>
        have hkept : kept ⟨bare, some note⟩ = ⟨note, .paren bare⟩ := by simp [kept, hop]
        rw [hkept, ofExpr_paren, h]
        exact hkept

theorem ofExpr_bare (e : Expr α) : ofExpr (ofExpr e).bare = ⟨(ofExpr e).bare, none⟩ := by
  induction e using Expr.groupInduct with
  | paren note inner ih => rw [ofExpr_paren, ih]
  | other e h ih =>
    have hbare := isGroup_bare e
    rw [ofExpr_of_not_group h] at hbare ⊢
    rw [ofExpr_of_not_group hbare, Node.mapPlaces_mapPlaces,
      Node.mapPlaces_congr fun c hc => placed_ofExpr_placed (ih c hc)]

end Grouped

namespace Expr

variable {α : Type}

/-- Normalizing drops nothing but groups. -/
theorem ungroup_normalizeGroups (e : Expr α) : e.normalizeGroups.ungroup = e.ungroup :=
  Grouped.ungroup_bare e

theorem ungroup_normalizeBound (e : Expr α) : e.normalizeBound.ungroup = e.ungroup :=
  (Grouped.ungroup_kept _).trans (Grouped.ungroup_bare e)

/-- Normalizing twice is normalizing once. -/
theorem normalizeGroups_idem (e : Expr α) : e.normalizeGroups.normalizeGroups = e.normalizeGroups :=
  Grouped.placed_ofExpr_placed (Grouped.ofExpr_bare e) false

theorem normalizeBound_idem (e : Expr α) : e.normalizeBound.normalizeBound = e.normalizeBound :=
  Grouped.placed_ofExpr_placed (Grouped.ofExpr_bare e) true

/-- The expression as it is normalized in a statement where it has the given role. -/
def normalizeIn (role : Role) (e : Expr α) : Expr α :=
  match role with
  | .loopBound => e.normalizeBound
  | .other     => e.normalizeGroups

end Expr

/-! ## Statements -/

namespace Stmt

variable {α : Type}

theorem normalizeGroupsList_eq_map (ss : List (Stmt (Expr α))) :
    normalizeGroupsList ss = ss.map normalizeGroups := by
  induction ss with
  | nil => rfl
  | cons s ss ih => rw [normalizeGroupsList, ih, List.map_cons]

theorem normalizeGroupsOption_eq_map (s : Option (Stmt (Expr α))) :
    normalizeGroupsOption s = s.map normalizeGroups := by
  cases s <;> rfl

/-- Normalization goes into every statement and reaches each expression in its role. -/
theorem normalizeGroups_eq_mapRoles (s : Stmt (Expr α)) :
    s.normalizeGroups = s.mapRoles Expr.normalizeIn := by
  induction s using induct with
  | forLoop var lower upper body ih =>
    rw [normalizeGroups, ih]
    rfl
  | whileLoop test body ih =>
    rw [normalizeGroups, ih]
    rfl
  | branch test yes no ihyes ihno =>
    rw [normalizeGroups, ihyes, normalizeGroupsOption_eq_map, Option.map_congr ihno,
      mapRoles_branch]
    rfl
  | block body ih =>
    rw [normalizeGroups, normalizeGroupsList_eq_map, List.map_congr_left ih, mapRoles_block]
  | other s h =>
    -- no loop is left, so the plain map meets no expression that is kept
    cases s with
    | forLoop | whileLoop | branch | block => cases h
    | ret value => cases value <;> rfl
    | _ => rfl

end Stmt

end ModelForm
