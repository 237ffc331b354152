import ModelForm.Proofs.Expressions
import ModelForm.Proofs.Groups
import ModelForm.Proofs.Renaming

/-!
# Modern heads

Replacing what is deprecated replaces heads of nodes. Children stay where they are, and so do
annotations; only the test of a choice gets a group. `Node.modernHead` replaces one head over
children of any type, so it can neither look at them nor change them, and `Expr.modernHeads` and
`Stmt.modernHeads` replace all heads of a tree and of a statement.

* `Expr.ungroup_modernized` — up to groups, modernizing a tree is replacing its heads.
* `Expr.Modern` — no head of the tree is deprecated. Groups have no part in it (`modern_ungroup`),
  modernizing achieves it (`modern_modernized`) and leaves alone what has it (`modernized_eq_self`).
* `Stmt.value_modernize` — modernizing a statement is modernizing its expressions and replacing the
  heads of its statements.
-/

namespace ModelForm

/-- The call that takes the place of another, which is the same call if that is not deprecated. -/
def DeprecationTable.renamed (table : DeprecationTable) (kind : CallKind) (name : String) :
    CallKind × String :=
  (table.rename? kind name).getD (kind, name)

/-! ## One node -/

namespace Node

variable {γ δ : Type}

/-- The node with its head replaced if it is deprecated. -/
def modernHead (table : DeprecationTable) : Node γ → Node γ
  | .call kind name args =>
    let renamed := table.renamed kind name
    if name = "get_lp" ∧ args.isEmpty ∧ kind ≠ .user then
      .call .internal "target" args
    else
      match args with
      | [test, yes, no] =>
        if name = "if_else" ∧ kind.isLibrary then .conditional test yes no
        else .call renamed.1 renamed.2 args
      | _ => .call renamed.1 renamed.2 args
  | node => node

variable (table : DeprecationTable)

/-- Everything that a call can become. -/
theorem modernHead_call (kind : CallKind) (name : String) (args : List γ) :
    (name = "get_lp" ∧ args = [] ∧ kind ≠ .user ∧
        (call kind name args).modernHead table = .call .internal "target" []) ∨
      (∃ test yes no, name = "if_else" ∧ kind.isLibrary ∧ args = [test, yes, no] ∧
        (call kind name args).modernHead table = .conditional test yes no) ∨
      ¬ (name = "get_lp" ∧ args = [] ∧ kind ≠ .user) ∧
        ¬ (name = "if_else" ∧ kind.isLibrary ∧ args.length = 3) ∧
        (call kind name args).modernHead table =
          .call (table.renamed kind name).1 (table.renamed kind name).2 args := by
  by_cases hread : name = "get_lp" ∧ args.isEmpty ∧ kind ≠ .user
  · obtain ⟨rfl, hargs, hkind⟩ := hread
    obtain rfl := List.isEmpty_iff.mp hargs
    exact Or.inl ⟨rfl, rfl, hkind, by simp [modernHead, hkind]⟩
  · have hread' : ¬ (name = "get_lp" ∧ args = [] ∧ kind ≠ .user) := by
      rwa [List.isEmpty_iff] at hread
    right
    simp only [modernHead, if_neg hread]
    split
    · next test yes no =>
      by_cases hchoice : name = "if_else" ∧ kind.isLibrary
      · exact Or.inl ⟨test, yes, no, hchoice.1, hchoice.2, rfl, if_pos hchoice⟩
      · exact Or.inr ⟨hread', fun h => hchoice ⟨h.1, h.2.1⟩, if_neg hchoice⟩
    · next hthree =>
      refine Or.inr ⟨hread', fun h => ?_, rfl⟩
      match args, h.2.2 with
      | [test, yes, no], _ => exact hthree test yes no rfl

/-- A call stays a call of the same arguments, unless it is a choice. -/
theorem exists_modernHead_call {kind : CallKind} {name : String} {args : List γ}
    (h : ¬ (name = "if_else" ∧ kind.isLibrary ∧ args.length = 3)) :
    ∃ newKind newName, (call kind name args).modernHead table = .call newKind newName args := by
  obtain ⟨-, rfl, -, hhead⟩ | ⟨test, yes, no, hname, hlibrary, rfl, -⟩ | ⟨-, -, hhead⟩ :=
    modernHead_call table kind name args
  · exact ⟨_, _, hhead⟩
  · exact absurd ⟨hname, hlibrary, rfl⟩ h
  · exact ⟨_, _, hhead⟩

@[simp] theorem children_modernHead (n : Node γ) : (n.modernHead table).children = n.children := by
  cases n with
  | call kind name args =>
    obtain ⟨rfl, rfl, -, h⟩ | ⟨test, yes, no, rfl, -, rfl, h⟩ | ⟨-, -, h⟩ :=
      modernHead_call table kind name args <;>
    rw [h] <;> rfl
  | _ => rfl

/-- Replacing a head does not depend on the children, and leaves them in their places. -/
theorem modernHead_map (f : γ → δ) (n : Node γ) :
    (n.map f).modernHead table = (n.modernHead table).map f := by
  cases n with
  | call kind name args =>
    obtain ⟨rfl, rfl, hkind, h⟩ | ⟨test, yes, no, rfl, hkind, rfl, h⟩ | ⟨hread, hchoice, h⟩ :=
      modernHead_call table kind name args
    · rw [h]
      simp [modernHead, map, hkind]
    · rw [h]
      simp [modernHead, map, hkind]
    · rw [h]
      obtain ⟨rfl, hargs, hkind, -⟩ | ⟨test, yes, no, rfl, hkind, hargs, -⟩ | ⟨-, -, h'⟩ :=
        modernHead_call table kind name (args.map f)
      · exact absurd ⟨rfl, List.map_eq_nil_iff.mp hargs, hkind⟩ hread
      · have hlength := congrArg List.length hargs
        rw [List.length_map] at hlength
        exact absurd ⟨rfl, hkind, hlength⟩ hchoice
      · exact h'
  | _ => rfl

theorem shell_modernHead (n : Node γ) : (n.modernHead table).shell = n.shell.modernHead table :=
  (modernHead_map table _ n).symm

/-- A node is left alone as soon as its shell is. -/
theorem modernHead_eq_self {n : Node γ} (h : n.shell.modernHead table = n.shell) :
    n.modernHead table = n := by
  cases n with
  | call kind name args =>
    rw [← shell_modernHead] at h
    obtain ⟨rfl, rfl, -, h'⟩ | ⟨test, yes, no, -, -, -, h'⟩ | ⟨-, -, h'⟩ :=
      modernHead_call table kind name args
    · rw [h'] at h
      simp [shell, map] at h
    · rw [h'] at h
      simp [shell, map] at h
    · rw [h'] at h ⊢
      simp only [shell, map, call.injEq] at h
      rw [h.1, h.2.1]
  | _ => rfl

end Node

/-- A second replacement finds nothing to replace. -/
theorem DeprecationTable.renamed_renamed (families : Catalog) (kind : CallKind) (name : String) :
    (ofCatalog families).renamed ((ofCatalog families).renamed kind name).1
        ((ofCatalog families).renamed kind name).2 =
      (ofCatalog families).renamed kind name := by
  cases h : (ofCatalog families).rename? kind name with
  | none => simp [renamed, h]
  | some call =>
    obtain ⟨newKind, newName⟩ := call
    simp [renamed, h, rename?_replaced h newKind]

/-- The table is asked for every deprecated name. -/
theorem Node.modernHead_of_rename? {γ : Type} {families : Catalog} {kind newKind : CallKind}
    {name newName : String}
    (h : (DeprecationTable.ofCatalog families).rename? kind name = some (newKind, newName))
    (args : List γ) :
    (call kind name args).modernHead (.ofCatalog families) = .call newKind newName args := by
  obtain ⟨-, r, hr, -⟩ := DeprecationTable.rename?_eq_some h
  obtain ⟨hchoice, hread, -⟩ := deprecated_ne hr
  obtain ⟨hname, -⟩ | ⟨test, yes, no, hname, -⟩ | ⟨-, -, hhead⟩ :=
    modernHead_call (.ofCatalog families) kind name args
  · exact absurd hname hread
  · exact absurd hname hchoice
  · rw [hhead, DeprecationTable.renamed, h, Option.getD_some]

theorem Node.modernHead_idem {γ : Type} (families : Catalog) (n : Node γ) :
    (n.modernHead (.ofCatalog families)).modernHead (.ofCatalog families) =
      n.modernHead (.ofCatalog families) := by
  cases n with
  | call kind name args =>
    obtain ⟨rfl, rfl, -, h⟩ | ⟨test, yes, no, -, -, -, h⟩ | ⟨hread, hchoice, h⟩ :=
      modernHead_call (.ofCatalog families) kind name args
    · rw [h]
      rfl
    · rw [h]
      rfl
    · rw [h]
      cases hrename : (DeprecationTable.ofCatalog families).rename? kind name with
      | none =>
        have hsame : (DeprecationTable.ofCatalog families).renamed kind name = (kind, name) := by
          simp [DeprecationTable.renamed, hrename]
        rw [hsame] at h ⊢
        exact h
      | some call =>
        obtain ⟨newKind, newName⟩ := call
        have hne := DeprecationTable.replaced_ne hrename
        have hrenamed := DeprecationTable.renamed_renamed families kind name
        have hnew :
            (DeprecationTable.ofCatalog families).renamed kind name = (newKind, newName) := by
          simp [DeprecationTable.renamed, hrename]
        rw [hnew] at hrenamed ⊢
        obtain ⟨hname, -⟩ | ⟨test, yes, no, hname, -⟩ | ⟨-, -, h'⟩ :=
          modernHead_call (.ofCatalog families) newKind newName args
        · exact absurd hname hne.2
        · exact absurd hname hne.1
        · rw [h', hrenamed]
  | _ => rfl

@[simp] theorem Node.isGroup_modernHead {γ : Type} (table : DeprecationTable) (n : Node γ) :
    (n.modernHead table).isGroup = n.isGroup := by
  cases n with
  | call kind name args =>
    obtain ⟨-, -, -, h⟩ | ⟨test, yes, no, -, -, -, h⟩ | ⟨-, -, h⟩ :=
      modernHead_call table kind name args <;>
    rw [h] <;> rfl
  | _ => rfl

/-! ## Trees -/

namespace Expr

variable {α : Type}

def modernHeads (table : DeprecationTable) : Expr α → Expr α :=
  para fun e results => ⟨e.note, results.modernHead table⟩

theorem modernHeads_eq (table : DeprecationTable) (e : Expr α) :
    e.modernHeads table = ⟨e.note, (e.node.map (modernHeads table)).modernHead table⟩ := by
  rw [modernHeads, para_eq]

/-- A conditional with its test in a group. Other nodes stay. -/
def groupTest : Node (Expr α) → Node (Expr α)
  | .conditional test yes no => .conditional ⟨test.note, .paren test⟩ yes no
  | node                     => node

@[simp] theorem isGroup_groupTest (n : Node (Expr α)) : (groupTest n).isGroup = n.isGroup := by
  cases n <;> rfl

theorem map_ungroup_groupTest (n : Node (Expr α)) : (groupTest n).map ungroup = n.map ungroup := by
  cases n with
  | conditional test yes no => simp [groupTest, Node.map]
  | _ => rfl

/-- What stands in place of a call is the call with its head replaced and the test grouped. -/
theorem value_modernCall (families : Catalog) (kind : CallKind) (name : String)
    (args : List (Expr α)) :
    (modernCall (.ofCatalog families) kind name args).value =
      groupTest ((Node.call kind name args).modernHead (.ofCatalog families)) := by
  obtain ⟨rfl, rfl, hkind, h⟩ | ⟨test, yes, no, rfl, hkind, rfl, h⟩ | ⟨hread, hchoice, h⟩ :=
    Node.modernHead_call (.ofCatalog families) kind name args
  · rw [h]
    simp [modernCall, hkind, groupTest]
  · rw [h]
    simp [modernCall, hkind, groupTest]
  · rw [h]
    unfold modernCall
    split
    · next hname =>
      -- a choice with another number of arguments is left alone, and its name is not in the table
      obtain ⟨rfl, hlibrary⟩ := hname
      have hsame : (DeprecationTable.ofCatalog families).renamed kind "if_else" =
          (kind, "if_else") := by
        rw [DeprecationTable.renamed, DeprecationTable.rename?_if_else, Option.getD_none]
      rw [hsame]
      split
      · exact absurd ⟨rfl, hlibrary, rfl⟩ hchoice
      · rfl
    · split
      · next hname =>
        rw [List.isEmpty_iff] at hname
        exact absurd hname hread
      · split
        · next hrename =>
          rw [DeprecationTable.renamed, hrename]
          rfl
        · next hrename =>
          rw [DeprecationTable.renamed, hrename]
          rfl

/-- Modernizing unfolds at the root, whatever the table is. -/
theorem value_modernize (table : DeprecationTable) (e : Expr α) :
    (e.modernize table).value =
      (modernizeStep table e.note (e.node.map fun c => (c.modernize table).value)).value := by
  simp only [modernize, value_foldTraced]
  rw [fold_eq]

/-- The tree without deprecated calls, as a plain function of the tree. -/
def modernized (families : Catalog) (e : Expr α) : Expr α :=
  (e.modernize (.ofCatalog families)).value

theorem modernized_eq (families : Catalog) (e : Expr α) :
    e.modernized families =
      (modernizeStep (.ofCatalog families) e.note (e.node.map (modernized families))).value :=
  value_modernize (.ofCatalog families) e

theorem modernized_of_not_call (families : Catalog) {e : Expr α} (h : e.node.callee? = none) :
    e.modernized families = ⟨e.note, e.node.map (modernized families)⟩ := by
  rw [modernized_eq]
  obtain ⟨note, node⟩ := e
  cases node with
  | call kind name args => cases h
  | _ => rfl

theorem modernized_call (families : Catalog) (note : α) (kind : CallKind) (name : String)
    (args : List (Expr α)) :
    modernized families ⟨note, .call kind name args⟩ =
      ⟨note, groupTest ((Node.call kind name (args.map (modernized families))).modernHead
        (.ofCatalog families))⟩ := by
  rw [modernized_eq, ← value_modernCall]
  rfl

/-- Up to groups, modernizing a tree is replacing its heads. -/
theorem ungroup_modernized (families : Catalog) (e : Expr α) :
    (e.modernized families).ungroup = e.ungroup.modernHeads (.ofCatalog families) := by
  induction e using groupInduct with
  | paren note inner ih =>
    rw [modernized_of_not_call families rfl]
    show ungroup ⟨note, .paren (inner.modernized families)⟩ = _
    rw [ungroup_paren, ungroup_paren, ih]
  | other e h ih =>
    have hchildren : (e.node.map (modernized families)).map ungroup =
        (e.node.map ungroup).map (modernHeads (.ofCatalog families)) := by
      rw [Node.map_map, Node.map_map]
      exact Node.map_congr ih
    rw [ungroup_of_not_group h, modernHeads_eq, ← hchildren, Node.modernHead_map]
    obtain ⟨note, node⟩ := e
    cases node with
    | call kind name args =>
      have hgroup : (groupTest ((Node.call kind name (args.map (modernized families))).modernHead
          (.ofCatalog families))).isGroup = false := by
        rw [isGroup_groupTest, Node.isGroup_modernHead]
        rfl
      rw [modernized_call, ungroup_of_not_group hgroup, map_ungroup_groupTest]
      rfl
    | paren inner => cases h
    | _ =>
      rw [modernized_of_not_call families rfl, ungroup_of_not_group rfl]
      rfl

/-! ### Trees without deprecated heads -/

/-- No head of the tree is deprecated. -/
def Modern (table : DeprecationTable) (e : Expr α) : Prop :=
  ∀ s ∈ e.nodes, s.node.shell.modernHead table = s.node.shell

theorem modern_iff {table : DeprecationTable} {e : Expr α} :
    e.Modern table ↔
      e.node.shell.modernHead table = e.node.shell ∧ ∀ c ∈ e.node.children, c.Modern table :=
  all_iff

/-- Groups have no part in being modern. -/
theorem modern_ungroup {table : DeprecationTable} (e : Expr α) :
    e.ungroup.Modern table ↔ e.Modern table :=
  all_ungroup (Q := fun s => s.modernHead table = s) rfl e

theorem modern_modernHeads (families : Catalog) (e : Expr α) :
    (e.modernHeads (.ofCatalog families)).Modern (.ofCatalog families) := by
  induction e using induct with
  | step e ih =>
    rw [modernHeads_eq, modern_iff]
    refine ⟨?_, ?_⟩
    · rw [← Node.shell_modernHead, Node.modernHead_idem]
    · rw [Node.children_modernHead, Node.children_map, List.forall_mem_map]
      exact ih

/-- Modernizing leaves nothing deprecated. -/
theorem modern_modernized (families : Catalog) (e : Expr α) :
    (e.modernized families).Modern (.ofCatalog families) := by
  rw [← modern_ungroup, ungroup_modernized]
  exact modern_modernHeads families _

/-- Modernizing leaves alone what has nothing deprecated. -/
theorem modernized_eq_self {families : Catalog} {e : Expr α}
    (h : e.Modern (.ofCatalog families)) : e.modernized families = e := by
  induction e using induct with
  | step e ih =>
    obtain ⟨hroot, hchildren⟩ := modern_iff.mp h
    have hmap : e.node.map (modernized families) = e.node :=
      Node.map_eq_self fun c hc => ih c hc (hchildren c hc)
    obtain ⟨note, node⟩ := e
    cases node with
    | call kind name args =>
      have hcall : Node.call kind name (args.map (modernized families)) = .call kind name args :=
        hmap
      rw [modernized_call, hcall, Node.modernHead_eq_self _ hroot]
      rfl
    | _ => rw [modernized_of_not_call families rfl, hmap]

theorem modernized_idem (families : Catalog) (e : Expr α) :
    (e.modernized families).modernized families = e.modernized families :=
  modernized_eq_self (modern_modernized families e)

/-- Dropping groups brings nothing deprecated back. -/
theorem modernized_of_ungroup_eq {families : Catalog} {e t : Expr α}
    (h : t.ungroup = (e.modernized families).ungroup) : t.modernized families = t := by
  apply modernized_eq_self
  rw [← modern_ungroup, h, modern_ungroup]
  exact modern_modernized families e

end Expr

/-! ## Statements -/

namespace Stmt

variable {ε φ : Type}

mutual

/-- The statement with its deprecated head and those of its inner statements replaced. Expressions
stay as they are. -/
def modernHeads (table : DeprecationTable) : Stmt ε → Stmt ε
  | .incrementLogProb amount      => .targetPlus amount
  | .assign target .arrow value   => .assign target .plain value
  | .call kind name args          =>
    .call (table.renamed kind name).1 (table.renamed kind name).2 args
  | .forLoop var lower upper body => .forLoop var lower upper (modernHeads table body)
  | .whileLoop test body          => .whileLoop test (modernHeads table body)
  | .branch test yes no           =>
    .branch test (modernHeads table yes) (modernHeadsOption table no)
  | .block body                   => .block (modernHeadsList table body)
  | s                             => s

def modernHeadsList (table : DeprecationTable) : List (Stmt ε) → List (Stmt ε)
  | []      => []
  | s :: ss => modernHeads table s :: modernHeadsList table ss

def modernHeadsOption (table : DeprecationTable) : Option (Stmt ε) → Option (Stmt ε)
  | none   => none
  | some s => some (modernHeads table s)

end

variable (table : DeprecationTable)

@[simp] theorem modernHeads_branch (test : ε) (yes : Stmt ε) (no : Option (Stmt ε)) :
    (branch test yes no).modernHeads table =
      branch test (yes.modernHeads table) (no.map (modernHeads table)) := by
  cases no <;> rfl

theorem modernHeadsList_eq_map (ss : List (Stmt ε)) :
    modernHeadsList table ss = ss.map (modernHeads table) := by
  induction ss with
  | nil => rfl
  | cons s ss ih => rw [modernHeadsList, ih, List.map_cons]

@[simp] theorem modernHeads_block (body : List (Stmt ε)) :
    (block body).modernHeads table = block (body.map (modernHeads table)) := by
  rw [modernHeads, modernHeadsList_eq_map]

theorem value_modernForm_call (kind : CallKind) (name : String) (args : List ε) :
    ((call kind name args).modernForm table).value =
      call (table.renamed kind name).1 (table.renamed kind name).2 args := by
  rw [modernForm, DeprecationTable.renamed]
  cases table.rename? kind name <;> rfl

/-- Replacing every statement by its modern form, from the inside out, replaces all heads. -/
theorem rewrite_modernForm (s : Stmt ε) :
    (s.rewrite fun t => (t.modernForm table).value) = s.modernHeads table := by
  induction s using induct with
  | forLoop var lower upper body ih =>
    rw [modernHeads, ← ih]
    rfl
  | whileLoop test body ih =>
    rw [modernHeads, ← ih]
    rfl
  | branch test yes no ihyes ihno =>
    rw [rewrite_branch, modernHeads_branch, ihyes, Option.map_congr ihno]
    rfl
  | block body ih =>
    rw [rewrite_block, modernHeads_block, List.map_congr_left ih]
    rfl
  | other s h =>
    cases s with
    | forLoop | whileLoop | branch | block => cases h
    | assign target op value => cases op <;> rfl
    | call kind name args => exact value_modernForm_call table kind name args
    | _ => rfl

theorem expressions_modernForm (s : Stmt ε) :
    (s.modernForm table).value.expressions = s.expressions := by
  cases s with
  | assign target op value => cases op <;> rfl
  | call kind name args => rw [value_modernForm_call, expressions, expressions]
  | _ => rfl

theorem expressions_modernHeads (s : Stmt ε) :
    (s.modernHeads table).expressions = s.expressions := by
  rw [← rewrite_modernForm, expressions_rewrite (expressions_modernForm table)]

/-- Replacing heads and replacing expressions do not interfere. -/
theorem modernHeads_mapRoles (f : Role → ε → φ) (s : Stmt ε) :
    (s.mapRoles f).modernHeads table = (s.modernHeads table).mapRoles f := by
  rw [← rewrite_modernForm, ← rewrite_modernForm]
  refine (mapRoles_rewrite (fun s => ?_) s).symm
  cases s with
  | assign target op value => cases op <;> rfl
  | call kind name args =>
    show _ = (modernForm table (.call kind name _)).value
    rw [value_modernForm_call, value_modernForm_call]
    rfl
  | ret value => cases value <;> rfl
  | _ => rfl

theorem skeleton_modernHeads (s : Stmt ε) :
    (s.modernHeads table).skeleton = s.skeleton.modernHeads table := by
  rw [← mapRoles_unit, ← mapRoles_unit, modernHeads_mapRoles]

theorem modernHeads_idem (families : Catalog) (s : Stmt ε) :
    (s.modernHeads (.ofCatalog families)).modernHeads (.ofCatalog families) =
      s.modernHeads (.ofCatalog families) := by
  induction s using induct with
  | forLoop var lower upper body ih => simp only [modernHeads, ih]
  | whileLoop test body ih => simp only [modernHeads, ih]
  | branch test yes no ihyes ihno =>
    simp only [modernHeads_branch, ihyes, Option.map_map]
    congr 1
    exact Option.map_congr ihno
  | block body ih =>
    simp only [modernHeads_block, List.map_map]
    congr 1
    exact List.map_congr_left ih
  | other s h =>
    cases s with
    | forLoop | whileLoop | branch | block => cases h
    | assign target op value => cases op <;> rfl
    | call kind name args => simp only [modernHeads, DeprecationTable.renamed_renamed]
    | _ => rfl

/-- Modernizing a statement modernizes its expressions and replaces the heads of its statements. -/
theorem value_modernize (families : Catalog) (s : Stmt (Expr Typed)) :
    (s.modernize (.ofCatalog families)).value =
      (s.map (Expr.modernized families)).modernHeads (.ofCatalog families) := by
  rw [modernize, Traced.value_bind, value_transform, rewrite_modernForm, traverse,
    value_traverseRoles]
  rfl

end Stmt

end ModelForm
