import ModelForm.Proofs.Building
import ModelForm.Proofs.Tagging

/-!
# Passes keep the kinds of calls

After repair a call is conditional exactly if its name is that of a density. The later passes give
calls new names and new kinds, each on its own. This file shows that the two stay together:

* `Expr.repaired_iff_taggedByName`: what repair leaves alone are the trees whose calls have the
  kinds that their names ask for.
* `Node.retag_modernHead`, `Expr.Applied.tagged`: one step of modernizing and one step of building.
* `Expr.repair_kept`: whole trees, with groups normalized or not.

Having the right kind is a matter of shells, so groups have no part in it (`Expr.all_ungroup`).
-/

namespace ModelForm

/-! ## Kinds and names -/

namespace CallKind

@[simp] theorem retag_retag (kind : CallKind) (name : String) :
    (kind.retag name).retag name = kind.retag name := by
  cases kind with
  | internal => rfl
  | library => cases h : (densitySuffix? name).isSome <;> simp [retag, origin?, plain, h]
  | user => cases h : (densitySuffix? name).isSome <;> simp [retag, origin?, plain, h]
  | conditional origin =>
    cases h : (densitySuffix? name).isSome <;> cases origin <;> simp [retag, origin?, plain, h]

/-- A call that somebody provides has the right kind exactly if it is conditional just when its name
is that of a density. -/
theorem retag_eq_self_iff {kind : CallKind} {name : String} :
    kind.retag name = kind ↔ (kind ≠ .internal →
      ((∃ origin, kind = .conditional origin) ↔ NamesDensity name)) := by
  rw [← isSome_densitySuffix?_iff]
  cases kind with
  | internal => simp [retag, origin?]
  | library => cases h : (densitySuffix? name).isSome <;> simp [retag, origin?, plain, h]
  | user => cases h : (densitySuffix? name).isSome <;> simp [retag, origin?, plain, h]
  | conditional origin =>
    cases h : (densitySuffix? name).isSome <;> cases origin <;> simp [retag, origin?, plain, h]

end CallKind

/-- What takes the place of a call of the right kind is of the right kind, unless a family has an
empty name. -/
theorem DeprecationTable.retag_renamed {families : Catalog} (hnames : ∀ f ∈ families, f.name ≠ "")
    {kind newKind : CallKind} {name newName : String} (hkind : kind.retag name = kind)
    (h : (ofCatalog families).renamed kind name = (newKind, newName)) :
    newKind.retag newName = newKind := by
  rw [renamed] at h
  cases hrename : (ofCatalog families).rename? kind name with
  | none =>
    rw [hrename] at h
    cases h
    exact hkind
  | some call =>
    rw [hrename, Option.getD_some] at h
    subst h
    exact (retag_of_rename? hnames hkind hrename).2

namespace Node

variable {γ : Type}

/-- The right kind is a matter of the shell alone. -/
theorem retag_shell_iff {n : Node γ} : n.shell.retag = n.shell ↔ n.retag = n := by
  cases n with
  | call kind name args => simp [shell, map, retag]
  | _ => exact ⟨fun _ => rfl, fun _ => rfl⟩

theorem retag_of_not_call {n : Node γ} (h : n.callee? = none) : n.retag = n := by
  cases n with
  | call kind name args => cases h
  | _ => rfl

/-- A new head is of the right kind if the old one was. -/
theorem retag_modernHead {families : Catalog} (hnames : ∀ f ∈ families, f.name ≠ "") {n : Node γ}
    (h : n.retag = n) :
    (n.modernHead (.ofCatalog families)).retag = n.modernHead (.ofCatalog families) := by
  cases n with
  | call kind name args =>
    have hkind : kind.retag name = kind := by
      injection h
    obtain ⟨-, -, -, hhead⟩ | ⟨test, yes, no, -, -, -, hhead⟩ | ⟨-, -, hhead⟩ :=
      modernHead_call (.ofCatalog families) kind name args
    · rw [hhead]
      rfl
    · rw [hhead]
      rfl
    · rcases hrenamed : (DeprecationTable.ofCatalog families).renamed kind name with
        ⟨newKind, newName⟩
      rw [hhead, hrenamed, retag, DeprecationTable.retag_renamed hnames hkind hrenamed]
  | _ => rfl

end Node

/-! ## Trees -/

namespace Expr

variable {α : Type}

/-- Every node is of the kind that its name asks for. -/
def Tagged (e : Expr α) : Prop := e.All fun s => s.node.shell.retag = s.node.shell

/-- Every call that somebody provides is conditional exactly if its name is that of a density. -/
def TaggedByName (e : Expr α) : Prop :=
  e.All fun s => ∀ kind name args, s.node = .call kind name args → kind ≠ .internal →
    ((∃ origin, kind = .conditional origin) ↔ NamesDensity name)

theorem tagged_iff_taggedByName {e : Expr α} : e.Tagged ↔ e.TaggedByName := by
  refine forall₂_congr fun s _ => Node.retag_shell_iff.trans ?_
  obtain ⟨note, node⟩ := s
  cases node with
  | call kind name args =>
    constructor
    · intro h kind' name' args' hnode
      cases hnode
      injection h with h
      exact CallKind.retag_eq_self_iff.mp h
    · intro h
      rw [Node.retag, CallKind.retag_eq_self_iff.mpr (h kind name args rfl)]
  | _ =>
    constructor
    · intro _ kind name args hnode
      cases hnode
    · exact fun _ => rfl

theorem repaired_iff_tagged {e : Expr α} : e.repair.value = e ↔ e.Tagged := by
  induction e using induct with
  | step e ih =>
    rw [repaired_iff, Tagged, all_iff, Node.retag_shell_iff]
    exact and_congr_right fun _ => forall₂_congr ih

/-- What repair leaves alone. -/
theorem repaired_iff_taggedByName {e : Expr α} : e.repair.value = e ↔ e.TaggedByName :=
  repaired_iff_tagged.trans tagged_iff_taggedByName

theorem tagged_repair (e : Expr α) : e.repair.value.Tagged := by
  induction e using induct with
  | step e ih =>
    rw [value_repair, Tagged, all_iff, Node.retag_shell_iff, Node.children_retag, Node.children_map,
      List.forall_mem_map]
    refine ⟨?_, ih⟩
    cases e.node with
    | call kind name args => simp [Node.map, Node.retag]
    | _ => rfl

theorem tagged_ungroup (e : Expr α) : e.ungroup.Tagged ↔ e.Tagged :=
  all_ungroup (Q := fun s => s.retag = s) rfl e

/-! ### Modernizing and groups -/

theorem Tagged.modernHeads {families : Catalog} (hnames : ∀ f ∈ families, f.name ≠ "")
    {e : Expr α} (h : e.Tagged) : (e.modernHeads (.ofCatalog families)).Tagged := by
  induction e using induct with
  | step e ih =>
    obtain ⟨hroot, hchildren⟩ := all_iff.mp h
    rw [modernHeads_eq]
    refine all_iff.mpr ⟨?_, ?_⟩
    · rw [Node.shell_modernHead, Node.shell_map]
      exact Node.retag_modernHead hnames hroot
    · rw [Node.children_modernHead, Node.children_map, List.forall_mem_map]
      exact fun c hc => ih c hc (hchildren c hc)

theorem Tagged.modernized {families : Catalog} (hnames : ∀ f ∈ families, f.name ≠ "") {e : Expr α}
    (h : e.Tagged) : (e.modernized families).Tagged := by
  rw [← tagged_ungroup, ungroup_modernized]
  exact ((tagged_ungroup e).mpr h).modernHeads hnames

theorem Tagged.normalizeGroups {e : Expr α} (h : e.Tagged) : e.normalizeGroups.Tagged := by
  rw [← tagged_ungroup, ungroup_normalizeGroups, tagged_ungroup]
  exact h

/-! ### Building -/

/-- The names that calls get by identities are no densities, and fused calls are densities. -/
theorem Applied.tagged {note : Typed} {kind : CallKind} {name : String} {args : List (Expr Typed)}
    {r : Expr Typed} (hkind : kind.retag name = kind) (hargs : ∀ a ∈ args, a.Tagged)
    (h : Applied note kind name args r) : r.node.shell.retag = r.node.shell := by
  have hnames : ∀ f ∈ Catalog.builtin, f.name ≠ "" := by decide
  rw [Node.retag_shell_iff]
  cases h with
  | choice => rfl
  | target => rfl
  | fused newKind newName fusion hrenamed hlibrary hfusion =>
    -- what is fused was a density already, so it is conditional by now
    have hnew := DeprecationTable.retag_renamed hnames hkind hrenamed
    have hdensity : newKind = .conditional .library := by
      rw [← hnew]
      exact CallKind.retag_of_isSome (densitySuffix?_of_fuseCall? hfusion) hlibrary
    have hfused : (densitySuffix? fusion.name).isSome :=
      densitySuffix?_of_mem_fusedNames (mem_fusedNames hfusion)
    subst hdensity
    exact congrArg (Node.call · fusion.name fusion.args) (CallKind.retag_of_isSome hfused rfl)
  | simplified r hr =>
    cases hr with
    | call name x hname _ =>
      have hplain : ∀ name ∈ simplifiedNames, CallKind.library.retag name = .library := by decide
      exact congrArg (Node.call · name [x]) (hplain name hname)
    | inner arg r harg hr =>
      exact Node.retag_shell_iff.mp (hargs arg harg r (mem_nodes_of_child hr))
  | plain newKind newName hrenamed _ _ _ =>
    exact congrArg (Node.call · newName args)
      (DeprecationTable.retag_renamed hnames hkind hrenamed)

theorem Tagged.rebuild {e : Expr Typed} (h : e.Tagged) : e.rebuild.value.Tagged := by
  refine all_rebuild (I := fun kind name => kind.retag name = kind) ?_ ?_ ?_
  · intro e he
    rw [Node.retag_shell_iff, Node.retag_of_not_call he]
  · exact fun note kind name args r hkind hargs happlied => happlied.tagged hkind hargs
  · intro s hs kind name args hnode
    have hroot := Node.retag_shell_iff.mp (h s hs)
    rw [hnode] at hroot
    injection hroot

/-- Modernizing, normalizing groups and building leave a repaired tree repaired, for any catalog
without an empty name. -/
theorem repair_kept {families : Catalog} (hnames : ∀ f ∈ families, f.name ≠ "") (e : Expr Typed) :
    let repaired := e.repair.value
    let modern := (repaired.modernize (.ofCatalog families)).value
    ∀ t ∈ [modern, modern.normalizeGroups, repaired.rebuild.value],
      t.repair.value = t ∧ t.TaggedByName := by
  intro repaired modern t ht
  have hrepaired : repaired.Tagged := tagged_repair e
  have hmodern : modern.Tagged := hrepaired.modernized hnames
  have htagged : t.Tagged := by
    simp only [List.mem_cons, List.not_mem_nil, or_false] at ht
    rcases ht with rfl | rfl | rfl
    · exact hmodern
    · exact hmodern.normalizeGroups
    · exact hrepaired.rebuild
  have hfixed : t.repair.value = t := repaired_iff_tagged.mpr htagged
  exact ⟨hfixed, repaired_iff_taggedByName.mp hfixed⟩

/-- A density under its old name, in a group and with the kind that only its new name asks for. -/
def oldDensity : Expr Typed :=
  ⟨.data .real, .paren ⟨.data .real, .call (.conditional .library) "normal_log"
    [⟨.data .real, .var "y"⟩, ⟨.data .real, .var "mu"⟩, ⟨.data .real, .var "sigma"⟩]⟩⟩

theorem repair_kept_oldDensity :
    let families : Catalog := [⟨"normal", .continuous, [.density]⟩]
    let modern := (oldDensity.repair.value.modernize (.ofCatalog families)).value
    let built := oldDensity.repair.value.rebuild.value
    (∀ f ∈ families, f.name ≠ "") ∧ (modern.repair.value = modern ∧ modern.TaggedByName) ∧
      (modern.normalizeGroups.repair.value = modern.normalizeGroups ∧
        modern.normalizeGroups.TaggedByName) ∧
      built.repair.value = built ∧ built.TaggedByName := by
  intro families modern built
  have hnames : ∀ f ∈ families, f.name ≠ "" := by decide
  have hkept := repair_kept hnames oldDensity
  refine ⟨hnames, hkept modern ?_, hkept modern.normalizeGroups ?_, hkept built ?_⟩
  · exact List.mem_cons_self
  · exact List.mem_cons_of_mem _ List.mem_cons_self
  · exact List.mem_cons_of_mem _ (List.mem_cons_of_mem _ List.mem_cons_self)

end Expr

end ModelForm
