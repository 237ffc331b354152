import ModelForm.Proofs.CanonicalForm
import ModelForm.Proofs.Expressions

/-!
# Nothing deprecated is left

`Node.Outdated` and `Stmt.Outdated` list what a table deprecates, form by form, and a program is
`Current` if no statement in it and no node of its expressions is outdated, at any depth.

Modernizing replaces exactly what is outdated: a program is left alone if and only if it is current
(`Program.modernize_eq_self_iff`). One run is enough because no replacement is outdated itself, so
what one run returns is left alone by the next, and is current (`Program.modernize_current`).
-/

namespace ModelForm

/-! ## Names -/

namespace DeprecationTable

def Deprecates (table : DeprecationTable) (name : String) : Prop := name ∈ table.replacements

theorem deprecates_iff {table : DeprecationTable} {name : String} :
    table.Deprecates name ↔ ∃ r, table.replacements[name]? = some r :=
  Std.TreeMap.mem_iff_isSome_getElem?.trans Option.isSome_iff_exists

/-- A replacement is neither deprecated nor one of the two calls that have none by name. -/
theorem replacement_current {families : Catalog} {old : String} {r : Replacement}
    (h : (ofCatalog families).replacements[old]? = some r) :
    ¬ (ofCatalog families).Deprecates r.name ∧ r.name ≠ "if_else" ∧ r.name ≠ "get_lp" := by
  obtain ⟨hchoice, hread, hnew⟩ := replacement_ne (mem_of_getElem? h)
  refine ⟨?_, hchoice, hread⟩
  intro hdeprecates
  obtain ⟨r', hr'⟩ := deprecates_iff.mp hdeprecates
  exact hnew r' (mem_of_getElem? hr')

/-- Calls of the library are looked up by their names. -/
theorem isSome_rename?_iff {table : DeprecationTable} {kind : CallKind} {name : String} :
    (table.rename? kind name).isSome ↔ kind.isLibrary ∧ table.Deprecates name := by
  unfold rename?
  split
  · next hlibrary =>
    rw [Option.isSome_map, Deprecates, Std.TreeMap.mem_iff_isSome_getElem?]
    exact (and_iff_right hlibrary).symm
  · next hlibrary => exact iff_of_false (by simp) fun h => hlibrary h.1

/-- No entry leads from a name to itself. -/
theorem renamed_eq_self_iff {families : Catalog} {kind : CallKind} {name : String} :
    (ofCatalog families).renamed kind name = (kind, name) ↔
      ¬ (kind.isLibrary ∧ (ofCatalog families).Deprecates name) := by
  rw [← isSome_rename?_iff, renamed]
  cases hrename : (ofCatalog families).rename? kind name with
  | none => simp
  | some call =>
    obtain ⟨newKind, newName⟩ := call
    refine iff_of_false ?_ (by simp)
    intro hsame
    cases hsame
    exact rename?_ne hrename rfl

end DeprecationTable

/-! ## Nodes -/

namespace Node

variable {γ : Type}

/-- What a table deprecates in expressions. -/
inductive Outdated (table : DeprecationTable) : Node γ → Prop
  /-- A call of a library function under its old name. -/
  | renamed (kind : CallKind) (name : String) (args : List γ) (library : kind.isLibrary)
      (deprecated : table.Deprecates name) : Outdated table (.call kind name args)
  /-- A read of the log density, unless the program has a function of that name. -/
  | read (kind : CallKind) (notUser : kind ≠ .user) : Outdated table (.call kind "get_lp" [])
  /-- A choice that is written as a call. -/
  | choice (kind : CallKind) (test yes no : γ) (library : kind.isLibrary) :
      Outdated table (.call kind "if_else" [test, yes, no])

theorem not_outdated_of_not_call {table : DeprecationTable} {n : Node γ} (h : n.callee? = none) :
    ¬ n.Outdated table := by
  intro hn
  cases hn <;> cases h

/-- A head is left alone exactly if it is not outdated. -/
theorem modernHead_eq_self_iff {families : Catalog} {n : Node γ} :
    n.modernHead (.ofCatalog families) = n ↔ ¬ n.Outdated (.ofCatalog families) := by
  cases n with
  | call kind name args =>
    obtain ⟨rfl, rfl, hkind, hhead⟩ | ⟨test, yes, no, rfl, hkind, rfl, hhead⟩ |
      ⟨hread, hchoice, hhead⟩ := modernHead_call (.ofCatalog families) kind name args
    · rw [hhead]
      exact iff_of_false (by simp) (not_not_intro (.read kind hkind))
    · rw [hhead]
      exact iff_of_false (by simp) (not_not_intro (.choice kind test yes no hkind))
    · have hrenamed : (Node.call kind name args).Outdated (.ofCatalog families) ↔
          kind.isLibrary ∧ (DeprecationTable.ofCatalog families).Deprecates name := by
        constructor
        · intro h
          cases h with
          | renamed _ _ _ library deprecated => exact ⟨library, deprecated⟩
          | read _ notUser => exact absurd ⟨rfl, rfl, notUser⟩ hread
          | choice _ test yes no library => exact absurd ⟨rfl, library, rfl⟩ hchoice
        · rintro ⟨library, deprecated⟩
          exact .renamed kind name args library deprecated
      rw [hhead, hrenamed, ← DeprecationTable.renamed_eq_self_iff, call.injEq, Prod.ext_iff]
      simp
  | _ => exact iff_of_true rfl (not_outdated_of_not_call rfl)

end Node

/-! ## Trees -/

namespace Expr

variable {α : Type}

/-- No node of the tree is outdated. -/
def Current (table : DeprecationTable) (e : Expr α) : Prop :=
  e.All fun s => ¬ s.node.Outdated table

theorem current_iff_modern {families : Catalog} {e : Expr α} :
    e.Current (.ofCatalog families) ↔ e.Modern (.ofCatalog families) := by
  refine forall₂_congr fun s _ => Node.modernHead_eq_self_iff.symm.trans ?_
  constructor
  · intro h
    rw [← Node.shell_modernHead, h]
  · exact Node.modernHead_eq_self _

/-- A tree is left alone exactly if it is current. -/
theorem modernized_eq_self_iff {families : Catalog} {e : Expr α} :
    e.modernized families = e ↔ e.Current (.ofCatalog families) := by
  rw [current_iff_modern]
  constructor
  · intro h
    rw [← h]
    exact modern_modernized families e
  · exact modernized_eq_self

end Expr

/-! ## Statements -/

namespace Stmt

variable {ε : Type}

/-- What a table deprecates in statements, apart from their expressions and inner statements. -/
inductive Outdated (table : DeprecationTable) : Stmt ε → Prop
  /-- The old way to add to the log density. -/
  | increment (amount : ε) : Outdated table (.incrementLogProb amount)
  /-- The arrow that assigns. -/
  | arrow (target value : ε) : Outdated table (.assign target .arrow value)
  /-- A call of a library function under its old name. -/
  | renamed (kind : CallKind) (name : String) (args : List ε) (library : kind.isLibrary)
      (deprecated : table.Deprecates name) : Outdated table (.call kind name args)

theorem outdated_call_iff {table : DeprecationTable} {kind : CallKind} {name : String}
    {args : List ε} :
    (Stmt.call kind name args).Outdated table ↔ kind.isLibrary ∧ table.Deprecates name := by
  constructor
  · intro h
    cases h with
    | renamed _ _ _ library deprecated => exact ⟨library, deprecated⟩
  · rintro ⟨library, deprecated⟩
    exact .renamed kind name args library deprecated

/-- A statement is its own modern form exactly if it is not outdated. -/
theorem modernForm_eq_self_iff {families : Catalog} {s : Stmt ε} :
    (s.modernForm (.ofCatalog families)).value = s ↔ ¬ s.Outdated (.ofCatalog families) := by
  cases s with
  | incrementLogProb amount =>
    refine iff_of_false ?_ (not_not_intro (.increment amount))
    intro hsame
    cases hsame
  | assign target op value =>
    cases op with
    | arrow =>
      refine iff_of_false ?_ (not_not_intro (.arrow target value))
      intro hsame
      cases hsame
    | plain | compound op =>
      refine iff_of_true rfl ?_
      intro houtdated
      cases houtdated
  | call kind name args =>
    rw [outdated_call_iff, ← DeprecationTable.renamed_eq_self_iff, value_modernForm_call,
      call.injEq, Prod.ext_iff]
    simp
  | _ =>
    refine iff_of_true rfl ?_
    intro houtdated
    cases houtdated

/-- Replacing heads leaves a statement alone exactly if no statement in it is outdated. -/
theorem modernHeads_eq_self_iff {families : Catalog} {s : Stmt ε} :
    s.modernHeads (.ofCatalog families) = s ↔
      ∀ t ∈ s.statements, ¬ t.Outdated (.ofCatalog families) := by
  have hcompound : ∀ s : Stmt ε, s.isCompound = true →
      (s.modernForm (.ofCatalog families)).value = s := by
    intro s h
    rw [modernForm_eq_self_iff]
    intro houtdated
    cases houtdated <;> cases h
  rw [← rewrite_modernForm, rewrite_eq_self_iff hcompound]
  exact forall₂_congr fun _ _ => modernForm_eq_self_iff

/-- A statement is left alone exactly if nothing in it is outdated. -/
theorem modernize_eq_self_iff {families : Catalog} {s : Stmt (Expr Typed)} :
    (s.modernize (.ofCatalog families)).value = s ↔
      (∀ t ∈ s.statements, ¬ t.Outdated (.ofCatalog families)) ∧
        ∀ role e, (role, e) ∈ s.expressions → e.Current (.ofCatalog families) := by
  rw [value_modernize, ← modernHeads_eq_self_iff, ← rewrite_modernForm, ← rewrite_modernForm, map,
    rewrite_mapRoles_eq_self_iff (expressions_modernForm _)]
  simp only [Expr.modernized_eq_self_iff]

end Stmt

/-! ## Programs -/

namespace Program

/-- Nothing in the program is outdated. -/
structure Current {α : Type} (table : DeprecationTable) (p : Program (Expr α)) : Prop where
  /-- No statement is, at any depth. -/
  statements : ∀ s ∈ p.allStatements, ¬ s.Outdated table
  /-- No node of an expression is, at any depth of expressions in statements. -/
  expressions : ∀ role e, (role, e) ∈ p.expressions → ∀ s ∈ e.nodes, ¬ s.node.Outdated table

/-- A program is left alone exactly if it is current. -/
theorem modernize_eq_self_iff {families : Catalog} {p : Program (Expr Typed)} :
    (p.modernize families).value = p ↔ p.Current (.ofCatalog families) := by
  simp only [value_modernize, mk_map_eq_self_iff, Stmt.modernize_eq_self_iff,
    forall_statements_iff]
  exact ⟨fun h => ⟨h.1, h.2⟩, fun h => ⟨h.statements, h.expressions⟩⟩

theorem modernize_idem (families : Catalog) (p : Program (Expr Typed)) :
    ((p.modernize families).value.modernize families).value = (p.modernize families).value := by
  simp only [value_modernize, List.map_map]
  congr 1
  exact List.map_congr_left fun s _ => Stmt.modernize_idem families s

/-- Modernizing leaves nothing outdated, whatever the families of the catalog are called, and leaves
a program alone if and only if nothing was. No name that the table puts in place of another is one
that is replaced. -/
theorem modernize_current (families : Catalog) (p : Program (Expr Typed)) :
    (p.modernize families).value.Current (.ofCatalog families) ∧
      ((p.modernize families).value = p ↔ p.Current (.ofCatalog families)) ∧
      ∀ (old : String) (r : Replacement),
        (DeprecationTable.ofCatalog families).replacements[old]? = some r →
        ¬ (DeprecationTable.ofCatalog families).Deprecates r.name ∧
          r.name ≠ "if_else" ∧ r.name ≠ "get_lp" := by
  refine ⟨?_, modernize_eq_self_iff, ?_⟩
  · exact modernize_eq_self_iff.mp (modernize_idem families p)
  · exact fun _ _ => DeprecationTable.replacement_current

/-- Two families that give rise to the same old name. -/
def collidingFamilies : Catalog :=
  [⟨"normal", .continuous, [.lcdf]⟩, ⟨"normal_cdf", .discrete, [.density]⟩]

/-- An arrow that assigns a choice between two calls under old names. -/
def oldAssignment : Stmt (Expr Typed) :=
  .assign ⟨.data .real, .var "x"⟩ .arrow ⟨.data .real, .call .library "if_else"
    [⟨.data .int, .var "c"⟩, ⟨.data .real, .call .library "get_lp" []⟩,
      ⟨.data .real, .call .library "normal_cdf_log" [⟨.data .real, .var "y"⟩]⟩]⟩

def oldLoop : Program (Expr Typed) :=
  ⟨[.whileLoop ⟨.data .int, .var "go"⟩ (.block [oldAssignment])]⟩

theorem modernize_current_oldLoop :
    let table := DeprecationTable.ofCatalog collidingFamilies
    ¬ oldLoop.Current table ∧ (oldLoop.modernize collidingFamilies).value.Current table ∧
      table.replacements["normal_cdf_log"]? = some ⟨"normal_cdf_lpmf", true⟩ ∧
      ¬ table.Deprecates "normal_cdf_lpmf" := by
  intro table
  have hlast : table.replacements["normal_cdf_log"]? = some ⟨"normal_cdf_lpmf", true⟩ := by
    rw [DeprecationTable.getElem?_ofCatalog]
    decide
  have hcurrent := modernize_current collidingFamilies oldLoop
  refine ⟨?_, hcurrent.1, hlast, (hcurrent.2.2 _ _ hlast).1⟩
  intro h
  refine h.statements oldAssignment ?_ (.arrow _ _)
  simp [allStatements, oldLoop, oldAssignment, Stmt.statements, Stmt.statementsList]

end Program

end ModelForm
