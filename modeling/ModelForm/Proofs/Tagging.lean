import ModelForm.Proofs.Mapping
import ModelForm.Proofs.Renaming
import ModelForm.Repair

/-!
# Kinds of calls

A repaired expression is one in which every call has the kind that its name asks for. Repair looks
at one call at a time, so this is a matter of the root and of its children (`Expr.repaired_iff`).

The replacement of a deprecated function is repaired as soon as the deprecated call is
(`DeprecationTable.retag_of_rename?`).
-/

namespace ModelForm

namespace CallKind

theorem retag_of_isSome {kind : CallKind} {name : String} (h : (densitySuffix? name).isSome)
    (hlibrary : kind.isLibrary) : kind.retag name = .conditional .library := by
  cases kind with
  | library => simp [retag, origin?, h]
  | conditional origin => cases origin <;> simp_all [retag, origin?, isLibrary]
  | _ => cases hlibrary

theorem retag_of_eq_none {kind : CallKind} {name : String} (h : densitySuffix? name = none)
    (hlibrary : kind.isLibrary) : kind.retag name = .library := by
  cases kind with
  | library => simp [retag, origin?, plain, h]
  | conditional origin => cases origin <;> simp_all [retag, origin?, plain, isLibrary]
  | _ => cases hlibrary

end CallKind

/-- What replaces a call that is not a density is of the kind that its name asks for, unless a
family has an empty name. -/
theorem DeprecationTable.retag_of_rename? {families : Catalog}
    (hnames : ∀ f ∈ families, f.name ≠ "") {kind newKind : CallKind} {name newName : String}
    (hkind : kind.retag name = kind)
    (h : (ofCatalog families).rename? kind name = some (newKind, newName)) :
    kind = .library ∧ newKind.retag newName = newKind := by
  obtain ⟨hlibrary, r, hr, rfl, rfl⟩ := rename?_eq_some h
  have hplain : kind = .library := by
    rw [← hkind]
    exact CallKind.retag_of_eq_none (deprecated_ne hr).2.2 hlibrary
  refine ⟨hplain, ?_⟩
  rcases replacement_cases hr with ⟨f, hf, rfl⟩ | ⟨hplainly, hending⟩
  · exact CallKind.retag_of_isSome (densitySuffix?_append (hnames f hf) _) rfl
  · rw [hplainly, hplain]
    refine CallKind.retag_of_eq_none ?_ rfl
    rw [← Option.not_isSome_iff_eq_none]
    intro hsome
    have hdensity := ending_of_densitySuffix? hsome
    rcases hending with hending | hfour
    · rw [hending] at hdensity
      revert hdensity
      decide
    · have hfixed : ∀ new ∈ ["lchoose", "lmultiply", "gp_exp_quad_cov", "abs"],
          ¬ (ending new = ['f', 'd', 'p'] ∨ ending new = ['f', 'm', 'p']) := by
        decide
      exact hfixed _ hfour hdensity

/-! ## Repaired expressions -/

/-- A call of the kind that its name asks for. Other nodes stay. -/
def Node.retag {γ : Type} : Node γ → Node γ
  | .call kind name args => .call (kind.retag name) name args
  | node                 => node

theorem Node.retag_map {γ δ : Type} (f : γ → δ) (n : Node γ) : (n.map f).retag = n.retag.map f := by
  cases n <;> rfl

@[simp] theorem Node.children_retag {γ : Type} (n : Node γ) : n.retag.children = n.children := by
  cases n <;> rfl

namespace Expr

variable {α : Type}

theorem value_retagStep (note : α) (n : Node (Expr α)) :
    (retagStep note n).value = ⟨note, n.retag⟩ := by
  cases n with
  | call kind name args =>
    simp only [retagStep, Node.retag]
    split
    · next h => rw [h, Traced.value_pure]
    · rfl
  | _ => rfl

theorem value_repair (e : Expr α) :
    e.repair.value = ⟨e.note, (e.node.map fun c => c.repair.value).retag⟩ := by
  simp only [repair, value_foldTraced, value_retagStep]
  rw [fold_eq]

/-- Repair leaves a tree alone exactly if it leaves alone the root and every child. -/
theorem repaired_iff {e : Expr α} :
    e.repair.value = e ↔ e.node.retag = e.node ∧ ∀ c ∈ e.node.children, c.repair.value = c := by
  rw [value_repair]
  constructor
  · intro h
    have hnode : (e.node.map fun c => c.repair.value).retag = e.node := congrArg Expr.node h
    have hchildren : ∀ c ∈ e.node.children, c.repair.value = c := by
      have hmap := congrArg Node.children hnode
      rw [Node.children_retag, Node.children_map] at hmap
      exact List.map_inj_left.mp (hmap.trans (List.map_id _).symm)
    rw [Node.map_eq_self hchildren] at hnode
    exact ⟨hnode, hchildren⟩
  · rintro ⟨hnode, hchildren⟩
    rw [Node.map_eq_self hchildren, hnode]
    cases e
    rfl

end Expr

end ModelForm
