import ModelForm.Build
import ModelForm.Proofs.Fusion
import ModelForm.Proofs.Modern

/-!
# What calls are built to

Building a call renames it, fuses it or replaces it by an identity, and each of these may move nodes
from further down in the arguments to the place of the call. This file says once what can come of a
call (`Expr.Applied`), and derives from it what holds of all nodes of a built tree:

* `Expr.all_rebuild`: a property that every result of one step has, given arguments all of whose
  nodes have it, holds of all nodes after building the whole tree.
* `Expr.modern_rebuild`: nothing deprecated is left.
* `Expr.stable_rebuild`: building a node of a built tree once more changes nothing, so a second run
  finds nothing to do (`Expr.rebuild_fixed`).

One rewrite at a node is enough because its result has one of a few names (`settledNames`) that no
rewrite starts from.
-/

namespace ModelForm

namespace Expr

/-! ## Identities -/

/-- The names of the calls that the identities are about. -/
def identityNames : List String :=
  ["pow", "Pow__", "log", "Times__", "dot_product", "columns_dot_product", "rows_dot_product"]

/-- The names of the calls that the identities lead to. -/
def simplifiedNames : List String :=
  ["square", "sqrt", "dot_self", "crossprod", "tcrossprod", "columns_dot_self", "rows_dot_self"]

/-- What an identity makes of a call: a call of one of its arguments, or something inside of one. -/
inductive Simplified (note : Typed) (args : List (Expr Typed)) : Expr Typed → Prop
  | call (name : String) (x : Expr Typed) (hname : name ∈ simplifiedNames) (hx : x ∈ args) :
      Simplified note args (libraryCall note name x)
  | inner (arg x : Expr Typed) (harg : arg ∈ args) (hx : x ∈ arg.node.children) :
      Simplified note args x

theorem simplified_of_power {note : Typed} {x exponent r : Expr Typed}
    (h : simplifyPower? note x exponent = some r) : Simplified note [x, exponent] r := by
  simp only [simplifyPower?, Option.bind_eq_bind, Option.bind_eq_some_iff] at h
  obtain ⟨n, -, h⟩ := h
  split at h
  · split at h
    · cases h
      exact .call _ x (by decide) (by simp)
    · obtain ⟨-, h⟩ := Option.ite_none_right_eq_some.mp h
      cases h
      exact .call _ x (by decide) (by simp)
  · cases h

theorem simplified_of_log {note : Typed} {arg r : Expr Typed} (h : simplifyLog? note arg = some r) :
    Simplified note [arg] r := by
  unfold simplifyLog? at h
  split at h
  · next x hexp =>
    obtain ⟨-, h⟩ := Option.ite_none_right_eq_some.mp h
    cases h
    refine .inner arg r (by simp) ?_
    rw [libraryArgs?_eq_some.mp hexp]
    exact List.mem_singleton.mpr rfl
  · cases h

theorem simplified_of_product {note : Typed} {left right r : Expr Typed}
    (h : simplifyProduct? note left right = some r) : Simplified note [left, right] r := by
  unfold simplifyProduct? at h
  split at h
  · split at h
    · cases h
      exact .call _ right (by decide) (by simp)
    · cases h
      exact .call _ right (by decide) (by simp)
    · cases h
  · split at h
    · split at h
      · cases h
        exact .call _ left (by decide) (by simp)
      · cases h
        exact .call _ left (by decide) (by simp)
      · cases h
    · cases h

/-- A product of something with itself that is written as a call. -/
theorem simplified_of_self {note : Typed} {name : String} {guard : Prop} [Decidable guard]
    {a b r : Expr Typed} (hname : name ∈ simplifiedNames)
    (h : (if guard then some (libraryCall note name a) else none) = some r) :
    Simplified note [a, b] r := by
  obtain ⟨-, h⟩ := Option.ite_none_right_eq_some.mp h
  cases h
  exact .call name a hname List.mem_cons_self

/-- Every identity is about a call of one of few names and leads to one of few forms. -/
theorem simplify?_eq_some {note : Typed} {name : String} {args : List (Expr Typed)} {r : Expr Typed}
    (h : simplify? note name args = some r) : name ∈ identityNames ∧ Simplified note args r := by
  unfold simplify? at h
  split at h
  · exact ⟨by decide, simplified_of_power h⟩
  · exact ⟨by decide, simplified_of_power h⟩
  · exact ⟨by decide, simplified_of_log h⟩
  · exact ⟨by decide, simplified_of_product h⟩
  · exact ⟨by decide, simplified_of_self (by decide) h⟩
  · exact ⟨by decide, simplified_of_self (by decide) h⟩
  · exact ⟨by decide, simplified_of_self (by decide) h⟩
  · cases h

theorem simplify?_eq_none {name : String} (h : name ∉ identityNames) (note : Typed)
    (args : List (Expr Typed)) : simplify? note name args = none := by
  cases hsimplify : simplify? note name args with
  | none => rfl
  | some r => exact absurd (simplify?_eq_some hsimplify).1 h

/-! ## Names that nothing is done to -/

/-- The names that calls get by being rewritten, new names of deprecated functions apart. -/
def settledNames : List String := "target" :: simplifiedNames ++ fusedNames

theorem settled_of_simplified {name : String} (h : name ∈ simplifiedNames) : name ∈ settledNames :=
  List.mem_cons_of_mem _ (List.mem_append_left _ h)

theorem settled_of_fuseCall? {name : String} {args : List (Expr Typed)} {fusion : Fusion}
    (h : fuseCall? name args = some fusion) : fusion.name ∈ settledNames :=
  List.mem_append_right _ (mem_fusedNames h)

/-- No rewrite starts from these names. -/
theorem settledNames_fixed : ∀ name ∈ settledNames,
    name ∉ ["if_else", "get_lp", "cov_exp_quad", "fabs"] ∧ name ∉ fusibleNames ∧
      name ∉ identityNames := by
  decide +kernel

/-- Nor does any of them end as deprecated names do. -/
theorem ending_of_settled {name : String} (h : name ∈ settledNames) :
    ending name ≠ ['g', 'o', 'l'] := by
  rcases List.mem_append.mp h with h | h
  · have hplain : ∀ name ∈ "target" :: simplifiedNames, ending name ≠ ['g', 'o', 'l'] := by decide
    exact hplain name h
  · rcases ending_of_densitySuffix? (densitySuffix?_of_mem_fusedNames h) with hending | hending
    · rw [hending]
      decide
    · rw [hending]
      decide

theorem rename?_of_settled (families : Catalog) {name : String} (h : name ∈ settledNames)
    (kind : CallKind) : (DeprecationTable.ofCatalog families).rename? kind name = none := by
  apply DeprecationTable.rename?_eq_none
  intro r hr
  rcases ending_deprecated hr with hending | rfl | rfl
  · exact ending_of_settled h hending
  · exact (settledNames_fixed _ h).1 (by decide)
  · exact (settledNames_fixed _ h).1 (by decide)

theorem modernHead_of_settled {γ : Type} (families : Catalog) {name : String}
    (h : name ∈ settledNames) (kind : CallKind) (args : List γ) :
    (Node.call kind name args).modernHead (.ofCatalog families) = .call kind name args := by
  have hname := (settledNames_fixed name h).1
  obtain ⟨rfl, -⟩ | ⟨test, yes, no, rfl, -⟩ | ⟨-, -, hhead⟩ :=
    Node.modernHead_call (.ofCatalog families) kind name args
  · exact absurd (by decide) hname
  · exact absurd (by decide) hname
  · rw [hhead, DeprecationTable.renamed, rename?_of_settled families h, Option.getD_none]

theorem simplify?_of_settled {name : String} (h : name ∈ settledNames) (note : Typed)
    (args : List (Expr Typed)) : simplify? note name args = none :=
  simplify?_eq_none (settledNames_fixed name h).2.2 note args

/-! ## One step -/

/-- A call is left as it is if it is not fused and no identity is about it. -/
theorem value_applyModern {note : Typed} {kind : CallKind} {name : String}
    {args : List (Expr Typed)} (hfuse : kind.isLibrary → fuseCall? name args = none)
    (hsimplify : kind = .library → simplify? note name args = none) :
    (applyModern note kind name args).value = ⟨note, .call kind name args⟩ := by
  have hnotFused : (if kind.isLibrary then fuseCall? name args else none) = none := by
    rw [ite_eq_right_iff]
    exact hfuse
  have hnotSimplified : (if kind = .library then simplify? note name args else none) = none := by
    rw [ite_eq_right_iff]
    exact hsimplify
  rw [applyModern, hnotFused, hnotSimplified]
  rfl

/-- What takes the place of a call is not deprecated itself. -/
theorem modernHead_of_eq {γ : Type} {n m : Node γ} (h : n.modernHead .builtin = m) :
    m.modernHead .builtin = m := by
  rw [← h]
  exact Node.modernHead_idem Catalog.builtin n

theorem value_modernCall_builtin (kind : CallKind) (name : String) (args : List (Expr Typed)) :
    (modernCall .builtin kind name args).value =
      groupTest ((Node.call kind name args).modernHead .builtin) :=
  value_modernCall Catalog.builtin kind name args

/-- The call that takes the place of another goes on to be fused or simplified. -/
theorem value_apply {kind newKind : CallKind} {name newName : String}
    {args newArgs : List (Expr Typed)}
    (h : (Node.call kind name args).modernHead .builtin = .call newKind newName newArgs)
    (note : Typed) :
    (apply note kind name args).value = (applyModern note newKind newName newArgs).value := by
  rw [apply, Traced.value_bind, value_modernCall_builtin, h]
  rfl

/-- Everything that a call can be built to. The new name of the call is the old one if it is not
deprecated. -/
inductive Applied (note : Typed) (kind : CallKind) (name : String) (args : List (Expr Typed)) :
    Expr Typed → Prop
  | choice (test yes no : Expr Typed) (hargs : args = [test, yes, no]) :
      Applied note kind name args ⟨note, .conditional ⟨test.note, .paren test⟩ yes no⟩
  | target : Applied note kind name args ⟨note, .call .internal "target" []⟩
  | fused (newKind : CallKind) (newName : String) (fusion : Fusion)
      (hrenamed : DeprecationTable.builtin.renamed kind name = (newKind, newName))
      (hlibrary : newKind.isLibrary) (hfusion : fuseCall? newName args = some fusion) :
      Applied note kind name args ⟨note, .call newKind fusion.name fusion.args⟩
  | simplified (r : Expr Typed) (hr : Simplified note args r) : Applied note kind name args r
  | plain (newKind : CallKind) (newName : String)
      (hrenamed : DeprecationTable.builtin.renamed kind name = (newKind, newName))
      (hhead : (Node.call kind name args).modernHead .builtin = .call newKind newName args)
      (hfuse : newKind.isLibrary → fuseCall? newName args = none)
      (hsimplify : newKind = .library → simplify? note newName args = none) :
      Applied note kind name args ⟨note, .call newKind newName args⟩

theorem applied_apply (note : Typed) (kind : CallKind) (name : String) (args : List (Expr Typed)) :
    Applied note kind name args (apply note kind name args).value := by
  obtain ⟨-, -, -, hhead⟩ | ⟨test, yes, no, -, -, rfl, hhead⟩ | ⟨-, -, hhead⟩ :=
    Node.modernHead_call .builtin kind name args
  · -- nothing fuses or simplifies an internal call
    rw [value_apply hhead]
    exact .target
  · rw [apply, Traced.value_bind, value_modernCall_builtin, hhead]
    exact .choice test yes no rfl
  · rcases hrenamed : DeprecationTable.builtin.renamed kind name with ⟨newKind, newName⟩
    rw [hrenamed] at hhead
    rw [value_apply hhead]
    unfold applyModern
    split
    · next fusion hfusion =>
      obtain ⟨hlibrary, hfusion⟩ := Option.ite_none_right_eq_some.mp hfusion
      exact .fused newKind newName fusion hrenamed hlibrary hfusion
    · next hfuse =>
      split
      · next r hr =>
        obtain ⟨-, hr⟩ := Option.ite_none_right_eq_some.mp hr
        exact .simplified r (simplify?_eq_some hr).2
      · next hsimplify =>
        exact .plain newKind newName hrenamed hhead (ite_eq_right_iff.mp hfuse)
          (ite_eq_right_iff.mp hsimplify)

/-- What is below the root of a result comes from the arguments, but for groups and literals. -/
theorem Applied.all_children {Q : Expr Typed → Prop}
    (hother : ∀ e : Expr Typed, e.node.callee? = none → Q e) {note : Typed} {kind : CallKind}
    {name : String} {args : List (Expr Typed)} {r : Expr Typed} (hargs : ∀ a ∈ args, a.All Q)
    (h : Applied note kind name args r) : ∀ c ∈ r.node.children, c.All Q := by
  intro c hc
  cases h with
  | choice test yes no harguments =>
    subst harguments
    obtain rfl | rfl | rfl : c = ⟨test.note, .paren test⟩ ∨ c = yes ∨ c = no := by
      simpa [Node.children] using hc
    · refine all_iff.mpr ⟨hother _ rfl, ?_⟩
      intro d hd
      rw [List.mem_singleton.mp hd]
      exact hargs test (by simp)
    · exact hargs c (by simp)
    · exact hargs c (by simp)
  | target => cases hc
  | fused newKind newName fusion _ _ hfusion =>
    rcases Fusion.mem_args hfusion hc with ⟨a, ha, hc⟩ | ⟨predictor, rfl⟩
    · exact (hargs a ha).inner hc
    · refine all_iff.mpr ⟨hother _ rfl, ?_⟩
      intro d hd
      cases hd
  | simplified r hr =>
    cases hr with
    | call name x _ hx =>
      rw [List.mem_singleton.mp hc]
      exact hargs x hx
    | inner arg r harg hr =>
      have hr' := (hargs arg harg).inner (mem_nodes_of_child hr)
      exact hr'.inner (mem_nodes_of_child hc)
  | plain => exact hargs c hc

/-! ## Whole expressions -/

theorem value_rebuild (e : Expr Typed) :
    e.rebuild.value = (build e.note (e.node.map fun c => c.rebuild.value)).value := by
  simp only [rebuild, value_foldTraced]
  rw [fold_eq]

/-- What every result of a step has, given arguments all of whose nodes have it, is what all nodes
of a built tree have. A step may count on what the kind and the name of its call are known for. -/
theorem all_rebuild {Q : Expr Typed → Prop} {I : CallKind → String → Prop}
    (hother : ∀ e : Expr Typed, e.node.callee? = none → Q e)
    (hstep : ∀ note kind name args r, I kind name → (∀ a ∈ args, a.All Q) →
      Applied note kind name args r → Q r)
    {e : Expr Typed}
    (h : e.All fun s => ∀ kind name args, s.node = .call kind name args → I kind name) :
    e.rebuild.value.All Q := by
  induction e using induct with
  | step e ih =>
    obtain ⟨hroot, hchildren⟩ := all_iff.mp h
    have hbuilt : ∀ c ∈ (e.node.map fun c => c.rebuild.value).children, c.All Q := by
      intro c hc
      rw [Node.children_map] at hc
      obtain ⟨child, hchild, rfl⟩ := List.mem_map.mp hc
      exact ih child hchild (hchildren child hchild)
    rw [value_rebuild]
    obtain ⟨note, node⟩ := e
    cases node with
    | call kind name args =>
      have happlied := applied_apply note kind name (args.map fun c => c.rebuild.value)
      refine all_iff.mpr ⟨?_, happlied.all_children hother hbuilt⟩
      exact hstep _ _ _ _ _ (hroot kind name args rfl) hbuilt happlied
    | _ => exact all_iff.mpr ⟨hother _ rfl, hbuilt⟩

/-! ### Nothing deprecated is left -/

theorem modernHead_of_not_call {γ : Type} (table : DeprecationTable) {n : Node γ}
    (h : n.callee? = none) : n.modernHead table = n := by
  cases n with
  | call kind name args => cases h
  | _ => rfl

theorem Applied.modernHead {note : Typed} {kind : CallKind} {name : String}
    {args : List (Expr Typed)} {r : Expr Typed} (hargs : ∀ a ∈ args, a.Modern .builtin)
    (h : Applied note kind name args r) : r.node.modernHead .builtin = r.node := by
  cases h with
  | choice => rfl
  | target => exact modernHead_of_settled Catalog.builtin (by decide) _ _
  | fused newKind newName fusion _ _ hfusion =>
    exact modernHead_of_settled Catalog.builtin (settled_of_fuseCall? hfusion) _ _
  | simplified r hr =>
    cases hr with
    | call name x hname _ =>
      exact modernHead_of_settled Catalog.builtin (settled_of_simplified hname) _ _
    | inner arg r harg hr =>
      exact Node.modernHead_eq_self _ (hargs arg harg r (mem_nodes_of_child hr))
  | plain newKind newName _ hhead _ _ => exact modernHead_of_eq hhead

theorem modern_rebuild (e : Expr Typed) : e.rebuild.value.Modern .builtin := by
  refine all_rebuild (I := fun _ _ => True) ?_ ?_ fun _ _ _ _ _ _ => trivial
  · intro e h
    rw [← Node.shell_modernHead, modernHead_of_not_call _ h]
  · intro note kind name args r _ hargs h
    rw [← Node.shell_modernHead, h.modernHead hargs]

/-! ### A second run changes nothing -/

/-- Building the root once more changes nothing. -/
def Stable (e : Expr Typed) : Prop := (build e.note e.node).value = e

theorem stable_of_not_call {e : Expr Typed} (h : e.node.callee? = none) : e.Stable := by
  obtain ⟨note, node⟩ := e
  cases node with
  | call kind name args => cases h
  | _ => rfl

theorem stable_iff {e : Expr Typed} :
    e.Stable ↔ ∀ kind name args, e.node = .call kind name args →
      (apply e.note kind name args).value = e := by
  obtain ⟨note, node⟩ := e
  cases node with
  | call kind name args =>
    constructor
    · intro h kind' name' args' hnode
      cases hnode
      exact h
    · exact fun h => h kind name args rfl
  | _ =>
    constructor
    · intro _ kind name args hnode
      cases hnode
    · exact fun _ => stable_of_not_call rfl

theorem stable_of_settled {name : String} (h : name ∈ settledNames) (note : Typed) (kind : CallKind)
    (args : List (Expr Typed)) : Stable ⟨note, .call kind name args⟩ := by
  have hmodern := modernHead_of_settled Catalog.builtin h kind args
  have hfuse := fuseCall?_eq_none (settledNames_fixed name h).2.1 args
  have hsimplify := simplify?_of_settled h note args
  exact (value_apply hmodern note).trans (value_applyModern (fun _ => hfuse) fun _ => hsimplify)

theorem Applied.stable {note : Typed} {kind : CallKind} {name : String} {args : List (Expr Typed)}
    {r : Expr Typed} (hargs : ∀ a ∈ args, a.All Stable) (h : Applied note kind name args r) :
    r.Stable := by
  cases h with
  | choice => rfl
  | target => exact stable_of_settled (by decide) _ _ _
  | fused newKind newName fusion _ _ hfusion =>
    exact stable_of_settled (settled_of_fuseCall? hfusion) _ _ _
  | simplified r hr =>
    cases hr with
    | call name x hname _ => exact stable_of_settled (settled_of_simplified hname) _ _ _
    | inner arg r harg hr => exact hargs arg harg r (mem_nodes_of_child hr)
  | plain newKind newName _ hhead hfuse hsimplify =>
    -- building the call again looks at the same name and the same arguments
    exact (value_apply (modernHead_of_eq hhead) note).trans (value_applyModern hfuse hsimplify)

theorem stable_rebuild (e : Expr Typed) : e.rebuild.value.All Stable := by
  refine all_rebuild (I := fun _ _ => True) ?_ ?_ fun _ _ _ _ _ _ => trivial
  · exact fun e h => stable_of_not_call h
  · exact fun note kind name args r _ hargs h => h.stable hargs

/-- Building leaves a tree alone exactly if it leaves every node alone. -/
theorem rebuild_eq_self_iff {e : Expr Typed} : e.rebuild.value = e ↔ e.All Stable := by
  constructor
  · intro h
    rw [← h]
    exact stable_rebuild e
  · intro h
    induction e using induct with
    | step e ih =>
      obtain ⟨hroot, hchildren⟩ := all_iff.mp h
      rw [value_rebuild, Node.map_eq_self fun c hc => ih c hc (hchildren c hc)]
      exact hroot

/-- Building a tree twice is building it once, and every call in a built tree is the call that
building makes of it. These are two ways to say the same of any tree. -/
theorem rebuild_fixed (e : Expr Typed) :
    e.rebuild.value.rebuild.value = e.rebuild.value ∧
      (∀ s ∈ e.rebuild.value.nodes, ∀ kind name args, s.node = .call kind name args →
        (apply s.note kind name args).value = s) ∧
      ∀ t : Expr Typed, t.rebuild.value = t ↔
        ∀ s ∈ t.nodes, ∀ kind name args, s.node = .call kind name args →
          (apply s.note kind name args).value = s := by
  have hcalls (t : Expr Typed) : t.rebuild.value = t ↔
      ∀ s ∈ t.nodes, ∀ kind name args, s.node = .call kind name args →
        (apply s.note kind name args).value = s :=
    rebuild_eq_self_iff.trans (forall₂_congr fun _ _ => stable_iff)
  have hidem : e.rebuild.value.rebuild.value = e.rebuild.value :=
    rebuild_eq_self_iff.mpr (stable_rebuild e)
  exact ⟨hidem, (hcalls _).mp hidem, hcalls⟩

/-- A choice between a read of the log density and a variable, both written as calls. -/
def oldChoice : Expr Typed :=
  ⟨.data .real, .call .library "if_else" [⟨.data .int, .var "c"⟩,
    ⟨.data .real, .call .library "get_lp" []⟩, ⟨.data .real, .var "x"⟩]⟩

theorem rebuild_fixed_oldChoice :
    let target : Expr Typed := ⟨.data .real, .call .internal "target" []⟩
    target ∈ oldChoice.rebuild.value.nodes ∧
      (apply target.note .internal "target" []).value = target ∧
      oldChoice.rebuild.value.rebuild.value = oldChoice.rebuild.value := by
  intro target
  have hread : (rebuild ⟨.data .real, .call .library "get_lp" []⟩).value = target := value_rebuild _
  have hmem : target ∈ oldChoice.rebuild.value.nodes := by
    apply mem_nodes_of_child
    rw [value_rebuild, ← hread]
    show _ ∈ [_, (rebuild ⟨_, .call .library "get_lp" []⟩).value, _]
    simp
  have hfixed := rebuild_fixed oldChoice
  exact ⟨hmem, hfixed.2.1 target hmem .internal "target" [] rfl, hfixed.1⟩

/-! ## Modernizing and building -/

/-- No choice in the tree is written as a library call. -/
def ChoiceFree (e : Expr Typed) : Prop :=
  e.All fun s => ∀ kind args, s.node = .call kind "if_else" args → kind.isLibrary → args.length ≠ 3

/-- Building a call is building the call that takes its place. -/
theorem value_apply_modernHead {kind newKind : CallKind} {name newName : String}
    {args newArgs : List (Expr Typed)}
    (h : (Node.call kind name args).modernHead .builtin = .call newKind newName newArgs)
    (note : Typed) :
    (apply note kind name args).value = (apply note newKind newName newArgs).value := by
  rw [value_apply h, value_apply (modernHead_of_eq h)]

theorem rebuild_modernized {e : Expr Typed} (h : e.ChoiceFree) :
    (e.modernized Catalog.builtin).rebuild.value = e.rebuild.value := by
  induction e using induct with
  | step e ih =>
    obtain ⟨hroot, hchildren⟩ := all_iff.mp h
    have hmap : (e.node.map (modernized Catalog.builtin)).map (fun c => c.rebuild.value) =
        e.node.map fun c => c.rebuild.value := by
      rw [Node.map_map]
      exact Node.map_congr fun c hc => ih c hc (hchildren c hc)
    rw [value_rebuild e]
    obtain ⟨note, node⟩ := e
    cases node with
    | call kind name args =>
      have hcall : ¬ (name = "if_else" ∧ kind.isLibrary ∧ args.length = 3) := by
        rintro ⟨rfl, hlibrary, hlength⟩
        exact hroot kind args rfl hlibrary hlength
      obtain ⟨newKind, newName, hhead⟩ := Node.exists_modernHead_call .builtin hcall
      -- the new head does not depend on whether the arguments were modernized or built before
      have hhead' (f : Expr Typed → Expr Typed) :
          (Node.call kind name (args.map f)).modernHead .builtin =
            .call newKind newName (args.map f) :=
        (Node.modernHead_map .builtin f (.call kind name args)).trans (congrArg (Node.map f) hhead)
      have hargs : (args.map (modernized Catalog.builtin)).map (fun c => c.rebuild.value) =
          args.map fun c => c.rebuild.value := by
        injection hmap
      rw [modernized_call, ← DeprecationTable.builtin, hhead', value_rebuild]
      show (apply note newKind newName (List.map _ _)).value = (apply note kind name _).value
      rw [hargs, ← value_apply_modernHead (hhead' _)]
    | _ => rw [modernized_of_not_call Catalog.builtin rfl, value_rebuild, hmap]

/-- The two ways to replace what is deprecated agree. A built tree has nothing deprecated, and a
tree that was modernized before is built to the same; the latter unless a choice is written as a
call, since the group around its test is annotated as the test is at that time. In particular a call
of a deprecated function is built to what the call that replaces it is built to. -/
theorem rebuild_modernize_agree (e : Expr Typed) :
    (e.rebuild.value.modernize .builtin).value = e.rebuild.value ∧
      (e.ChoiceFree → (e.modernize .builtin).value.rebuild.value = e.rebuild.value) ∧
      ∀ note kind newKind old new args,
        DeprecationTable.builtin.rename? kind old = some (newKind, new) →
          (apply note kind old args).value = (apply note newKind new args).value := by
  refine ⟨?_, ?_, ?_⟩
  · exact modernized_eq_self (modern_rebuild e)
  · exact fun h => rebuild_modernized h
  · intro note kind newKind old new args hrename
    exact value_apply_modernHead (Node.modernHead_of_rename? hrename args) note

/-- The logarithm of the exponential of a call of a deprecated function. -/
def nestedLog : Expr Typed :=
  libraryCall (.data .real) "log" (libraryCall (.data .real) "exp"
    (libraryCall (.data .real) "fabs" ⟨.data .real, .var "x"⟩))

theorem rebuild_modernize_agree_nestedLog :
    nestedLog.ChoiceFree ∧
      DeprecationTable.builtin.rename? .library "fabs" = some (.library, "abs") ∧
      (nestedLog.rebuild.value.modernize .builtin).value = nestedLog.rebuild.value ∧
      (nestedLog.modernize .builtin).value.rebuild.value = nestedLog.rebuild.value ∧
      (apply nestedLog.note .library "fabs" [nestedLog]).value =
        (apply nestedLog.note .library "abs" [nestedLog]).value := by
  have hchoice : nestedLog.ChoiceFree := by
    have hstep (note : Typed) (node : Node (Expr Typed)) (Q : Expr Typed → Prop) :=
      all_iff (Q := Q) (e := ⟨note, node⟩)
    simp [ChoiceFree, nestedLog, libraryCall, hstep, Node.children]
  have hrename : DeprecationTable.builtin.rename? .library "fabs" = some (.library, "abs") := by
    rw [DeprecationTable.rename?, DeprecationTable.builtin, DeprecationTable.getElem?_ofCatalog]
    decide
  obtain ⟨hmodern, hrebuilt, hcall⟩ := rebuild_modernize_agree nestedLog
  exact ⟨hchoice, hrename, hmodern, hrebuilt hchoice, hcall _ _ _ _ _ _ hrename⟩

end Expr

end ModelForm
