import ModelForm.Proofs.CanonicalForm
import ModelForm.Proofs.Expressions
import ModelForm.Proofs.Retagging

/-!
# Repaired programs

Repair goes through a program twice: it retags the calls in expressions, and it takes the density
suffix off the distributions of sampling statements. Retagging is done after one run. Taking off a
suffix is not, since what stands before it may end in a suffix again.

* `Stmt.mapDistributions` — the distributions of a statement replaced, form by form.
* `Program.repair_eq_self_iff` — what repair leaves alone.
* `Program.repair_idem_iff` — when a second repair changes nothing, and what repair may change.
* `Program.repair_tagged_iff` — the calls in expressions have the kinds that their names ask for
  after repair. Calls in statement position have the kinds that they had before.
-/

namespace ModelForm

/-! ## Names -/

/-- Without its density suffix the name is still the name of a density. -/
def StackedSuffixes (name : String) : Prop :=
  ∃ stem, ∃ s : DensitySuffix, name = stem ++ s.text ∧ NamesDensity stem

theorem not_namesDensity_empty : ¬ NamesDensity "" := by
  rw [← isSome_densitySuffix?_iff]
  decide

theorem stripDensitySuffix_of_not_namesDensity {name : String} (h : ¬ NamesDensity name) :
    stripDensitySuffix name = name := by
  rw [← isSome_densitySuffix?_iff, Option.not_isSome_iff_eq_none] at h
  exact stripDensitySuffix_of_eq_none h

theorem stripDensitySuffix_eq_self_iff {name : String} :
    stripDensitySuffix name = name ↔ ¬ NamesDensity name := by
  constructor
  · rintro hself ⟨stem, s, rfl, hstem⟩
    rw [stripDensitySuffix_append hstem] at hself
    have hlength := congrArg String.length hself
    rw [String.length_append] at hlength
    have htext : s.text.length ≠ 0 := by cases s <;> decide
    omega
  · exact stripDensitySuffix_of_not_namesDensity

theorem namesDensity_stripDensitySuffix {name : String} :
    NamesDensity (stripDensitySuffix name) ↔ StackedSuffixes name := by
  constructor
  · intro h
    by_cases hname : NamesDensity name
    · obtain ⟨stem, s, rfl, hstem⟩ := hname
      rw [stripDensitySuffix_append hstem] at h
      exact ⟨stem, s, rfl, h⟩
    · rw [stripDensitySuffix_of_not_namesDensity hname] at h
      exact absurd h hname
  · rintro ⟨stem, s, rfl, h⟩
    have hstem : stem ≠ "" := by
      rintro rfl
      exact not_namesDensity_empty h
    rwa [stripDensitySuffix_append hstem]

example : stripDensitySuffix "normal_lpdf_lupmf" = "normal_lpdf" ∧
    stripDensitySuffix "normal_lpdf" = "normal" ∧ stripDensitySuffix "_lpdf" = "_lpdf" := by
  decide

/-! ## Statements -/

namespace Stmt

variable {ε φ : Type}

def distribution? : Stmt ε → Option String
  | .tilde _ distribution _ _ => some distribution
  | _                         => none

/-- The call that a statement is, without its arguments. -/
def call? : Stmt ε → Option (CallKind × String)
  | .call kind name _ => some (kind, name)
  | _                 => none

mutual

/-- The statement with its distributions replaced, also those of its inner statements. -/
def mapDistributions (f : String → String) : Stmt ε → Stmt ε
  | .tilde outcome distribution args truncation =>
    .tilde outcome (f distribution) args truncation
  | .forLoop var lower upper body => .forLoop var lower upper (mapDistributions f body)
  | .whileLoop test body          => .whileLoop test (mapDistributions f body)
  | .branch test yes no           =>
    .branch test (mapDistributions f yes) (mapDistributionsOption f no)
  | .block body                   => .block (mapDistributionsList f body)
  | s                             => s

def mapDistributionsList (f : String → String) : List (Stmt ε) → List (Stmt ε)
  | []      => []
  | s :: ss => mapDistributions f s :: mapDistributionsList f ss

def mapDistributionsOption (f : String → String) : Option (Stmt ε) → Option (Stmt ε)
  | none   => none
  | some s => some (mapDistributions f s)

end

theorem mapDistributionsList_eq_map (f : String → String) (ss : List (Stmt ε)) :
    mapDistributionsList f ss = ss.map (mapDistributions f) := by
  induction ss with
  | nil => rfl
  | cons s ss ih => rw [mapDistributionsList, ih, List.map_cons]

/-- Naming the families of all statements, from the inside out, replaces the distributions. -/
theorem rewrite_nameFamily (s : Stmt ε) :
    s.rewrite nameFamily = s.mapDistributions stripDensitySuffix := by
  induction s using induct with
  | forLoop var lower upper body ih =>
    rw [mapDistributions, ← ih]
    rfl
  | whileLoop test body ih =>
    rw [mapDistributions, ← ih]
    rfl
  | branch test yes no ihyes ihno =>
    rw [rewrite_branch, ihyes, Option.map_congr ihno]
    cases no <;> rfl
  | block body ih =>
    rw [rewrite_block, mapDistributions, mapDistributionsList_eq_map, List.map_congr_left ih]
    rfl
  | other s h =>
    cases s with
    | forLoop | whileLoop | branch | block => cases h
    | _ => rfl

/-! ### Naming the family of one statement -/

theorem nameFamily_of_isCompound {s : Stmt ε} (h : s.isCompound = true) : s.nameFamily = s := by
  cases s with
  | tilde => cases h
  | _ => rfl

theorem isCompound_nameFamily (s : Stmt ε) : s.nameFamily.isCompound = s.isCompound := by
  cases s <;> rfl

theorem expressions_nameFamily (s : Stmt ε) : s.nameFamily.expressions = s.expressions := by
  cases s <;> rfl

theorem mapRoles_nameFamily (r : Role → ε → φ) (s : Stmt ε) :
    s.nameFamily.mapRoles r = (s.mapRoles r).nameFamily := by
  cases s with
  | ret value => cases value <;> rfl
  | _ => rfl

theorem nameFamily_eq_self_iff {s : Stmt ε} :
    s.nameFamily = s ↔ ∀ name ∈ s.distribution?, ¬ NamesDensity name := by
  cases s with
  | tilde outcome distribution args truncation =>
    simp [nameFamily, distribution?, stripDensitySuffix_eq_self_iff]
  | _ => simp [nameFamily, distribution?]

theorem distribution?_nameFamily (s : Stmt ε) :
    s.nameFamily.distribution? = s.distribution?.map stripDensitySuffix := by
  cases s <;> rfl

theorem call?_nameFamily (s : Stmt ε) : s.nameFamily.call? = s.call? := by
  cases s <;> rfl

/-! ### Repair of a statement -/

/-- The statement with its calls retagged and its distributions naming families. -/
def repaired (s : Stmt (Expr Untyped)) : Stmt (Expr Untyped) :=
  (s.map fun e => e.repair.value).rewrite nameFamily

/-- The statements of a repaired statement are those of the statement before, each repaired. -/
theorem statements_repaired (s : Stmt (Expr Untyped)) :
    s.repaired.statements = s.statements.map repaired :=
  statements_map_rewrite (fun _ => nameFamily_of_isCompound) isCompound_nameFamily _ s

theorem expressions_repaired (s : Stmt (Expr Untyped)) :
    s.repaired.expressions = s.expressions.map fun item => (item.1, item.2.repair.value) := by
  rw [repaired, expressions_rewrite expressions_nameFamily, map, expressions_mapRoles]

theorem distribution?_repaired (s : Stmt (Expr Untyped)) :
    s.repaired.distribution? = s.distribution?.map stripDensitySuffix := by
  rw [repaired, rewrite_eq, distribution?_nameFamily]
  cases s with
  | ret value => cases value <;> rfl
  | _ => rfl

theorem call?_repaired (s : Stmt (Expr Untyped)) : s.repaired.call? = s.call? := by
  rw [repaired, rewrite_eq, call?_nameFamily]
  cases s with
  | ret value => cases value <;> rfl
  | _ => rfl

/-- Apart from its expressions, a repaired statement has other distributions. -/
theorem skeleton_repaired (s : Stmt (Expr Untyped)) :
    s.repaired.skeleton = s.skeleton.mapDistributions stripDensitySuffix := by
  rw [repaired, ← mapRoles_unit, mapRoles_rewrite (mapRoles_nameFamily _), mapRoles_unit, map,
    skeleton_mapRoles, rewrite_nameFamily]

/-- A statement is left alone exactly if its calls have the right kinds and its distributions are no
densities. -/
theorem repaired_eq_self_iff {s : Stmt (Expr Untyped)} :
    s.repaired = s ↔ (∀ t ∈ s.statements, ∀ name ∈ t.distribution?, ¬ NamesDensity name) ∧
      ∀ role e, (role, e) ∈ s.expressions → e.TaggedByName := by
  rw [repaired, map, rewrite_mapRoles_eq_self_iff expressions_nameFamily,
    rewrite_eq_self_iff fun _ => nameFamily_of_isCompound]
  simp only [nameFamily_eq_self_iff, Expr.repaired_iff_taggedByName]

end Stmt

/-! ## Programs -/

namespace Program

variable {ε α : Type}

/-- The distributions of all sampling statements, at any depth. -/
def distributions (p : Program ε) : List String := p.allStatements.filterMap Stmt.distribution?

/-- The calls in statement position, at any depth and without their arguments. -/
def statementCalls (p : Program ε) : List (CallKind × String) :=
  p.allStatements.filterMap Stmt.call?

def mapDistributions (f : String → String) (p : Program ε) : Program ε :=
  ⟨p.statements.map (Stmt.mapDistributions f)⟩

theorem forall_mem_distributions {P : String → Prop} {p : Program ε} :
    (∀ name ∈ p.distributions, P name) ↔
      ∀ s ∈ p.allStatements, ∀ name ∈ s.distribution?, P name := by
  simp only [distributions, List.mem_filterMap, forall_exists_index, and_imp]
  exact ⟨fun h s hs name hname => h name s hs hname, fun h name s hs hname => h s hs name hname⟩

theorem value_repair (p : Program (Expr Untyped)) :
    p.repair.value = ⟨p.statements.map Stmt.repaired⟩ := by
  rw [repair, Traced.value_bind, traverseStmts, bind_pure_comp, Traced.value_map,
    Traced.value_mapM]
  congr 1
  apply List.map_congr_left
  intro s _
  rw [Traced.value_bind, Stmt.value_transform, Stmt.traverse, Stmt.value_traverseRoles]
  rfl

theorem allStatements_repair (p : Program (Expr Untyped)) :
    p.repair.value.allStatements = p.allStatements.map Stmt.repaired := by
  rw [value_repair, allStatements, allStatements, List.flatMap_map, List.map_flatMap,
    funext Stmt.statements_repaired]

theorem expressions_repair (p : Program (Expr Untyped)) :
    p.repair.value.expressions =
      p.expressions.map fun item => (item.1, item.2.repair.value) := by
  rw [value_repair, expressions, expressions, List.flatMap_map, List.map_flatMap,
    funext Stmt.expressions_repaired]

theorem distributions_repair (p : Program (Expr Untyped)) :
    p.repair.value.distributions = p.distributions.map stripDensitySuffix := by
  rw [distributions, distributions, allStatements_repair, List.filterMap_map, List.map_filterMap]
  congr 1
  funext s
  exact Stmt.distribution?_repaired s

/-- Repair does not look at calls in statement position. -/
theorem statementCalls_repair (p : Program (Expr Untyped)) :
    p.repair.value.statementCalls = p.statementCalls := by
  rw [statementCalls, statementCalls, allStatements_repair, List.filterMap_map]
  congr 1
  funext s
  exact Stmt.call?_repaired s

theorem taggedByName_of_mem_repair {p : Program (Expr Untyped)} {role : Role} {e : Expr Untyped}
    (h : (role, e) ∈ p.repair.value.expressions) : e.TaggedByName := by
  rw [expressions_repair, List.mem_map] at h
  obtain ⟨⟨role, e⟩, -, hitem⟩ := h
  cases hitem
  exact Expr.tagged_iff_taggedByName.mp (Expr.tagged_repair e)

/-- A program is left alone exactly if its calls in expressions have the right kinds and its
distributions are no densities. -/
theorem repair_eq_self_iff {p : Program (Expr Untyped)} :
    p.repair.value = p ↔ (∀ name ∈ p.distributions, ¬ NamesDensity name) ∧
      ∀ role e, (role, e) ∈ p.expressions → e.TaggedByName := by
  simp only [value_repair, mk_map_eq_self_iff, Stmt.repaired_eq_self_iff, forall_statements_iff,
    forall_mem_distributions]

/-! ### What repair changes -/

/-- The program `q` is `p` but for the kinds of calls in its expressions and for its distributions,
which have lost a density suffix. -/
structure RepairOf (p q : Program (Expr α)) : Prop where
  /-- Apart from expressions nothing but distributions differs, at any depth. -/
  skeleton_eq : q.skeleton = p.skeleton.mapDistributions stripDensitySuffix
  /-- Expression by expression, nothing but kinds of calls differs. -/
  expressions : ∀ i : Nat, Option.Rel (fun a b => b.1 = a.1 ∧ Expr.RetagOf a.2 b.2)
    p.expressions[i]? q.expressions[i]?

theorem repairOf_repair (p : Program (Expr Untyped)) : p.RepairOf p.repair.value := by
  refine ⟨?_, ?_⟩
  · simp only [value_repair, skeleton, mapDistributions, List.map_map]
    congr 1
    exact List.map_congr_left fun s _ => Stmt.skeleton_repaired s
  · intro i
    rw [expressions_repair, List.getElem?_map]
    cases p.expressions[i]? with
    | none => exact .none
    | some item => exact .some ⟨rfl, Expr.retagOf_repair item.2⟩

/-- A second repair changes nothing exactly if no distribution carries one density suffix after
another. The first one changes kinds of calls in expressions and takes one density suffix off each
distribution, and does nothing else. -/
theorem repair_idem_iff (p : Program (Expr Untyped)) :
    (p.repair.value.repair.value = p.repair.value ↔
        ∀ name ∈ p.distributions, ¬ StackedSuffixes name) ∧
      p.RepairOf p.repair.value := by
  refine ⟨?_, repairOf_repair p⟩
  rw [repair_eq_self_iff, distributions_repair, List.forall_mem_map]
  simp only [namesDensity_stripDensitySuffix]
  exact and_iff_left fun _ _ => taggedByName_of_mem_repair

/-! ### Kinds of calls -/

/-- Every call is of the kind that its name asks for. -/
structure TaggedByName (p : Program (Expr α)) : Prop where
  /-- Calls in expressions are, at any depth of expressions in statements. -/
  expressions : ∀ role e, (role, e) ∈ p.expressions → e.TaggedByName
  /-- Calls in statement position are, at any depth. -/
  statements : ∀ call ∈ p.statementCalls, call.1 ≠ .internal →
    ((∃ origin, call.1 = .conditional origin) ↔ NamesDensity call.2)

/-- After repair every call in an expression is of the kind that its name asks for. A call in
statement position keeps its kind, so that it is so exactly for the programs in which those calls
were right already. -/
theorem repair_tagged_iff (p : Program (Expr Untyped)) :
    (∀ role e, (role, e) ∈ p.repair.value.expressions → e.TaggedByName) ∧
      p.repair.value.statementCalls = p.statementCalls ∧
      (p.repair.value.TaggedByName ↔ ∀ call ∈ p.statementCalls, call.1 ≠ .internal →
        ((∃ origin, call.1 = .conditional origin) ↔ NamesDensity call.2)) := by
  refine ⟨fun _ _ => taggedByName_of_mem_repair, statementCalls_repair p, ?_⟩
  constructor
  · intro h
    rw [← statementCalls_repair]
    exact h.statements
  · intro h
    refine ⟨fun _ _ => taggedByName_of_mem_repair, ?_⟩
    rw [statementCalls_repair]
    exact h

/-- A loop around a density that is called in statement position, plainly. -/
def densityStatement : Program (Expr Untyped) :=
  ⟨[.whileLoop ⟨{}, .var "go"⟩ (.call .library "normal_lpdf" [⟨{}, .var "y"⟩])]⟩

/-- The call stays plain. -/
theorem densityStatement_untagged : ¬ densityStatement.repair.value.TaggedByName := by
  intro h
  have hcall : (.library, "normal_lpdf") ∈ densityStatement.repair.value.statementCalls := by
    rw [statementCalls_repair]
    decide
  have hname : NamesDensity "normal_lpdf" := ⟨"normal", .lpdf, rfl, by decide⟩
  obtain ⟨origin, hkind⟩ := (h.statements _ hcall (by decide)).mpr hname
  cases hkind

end Program

end ModelForm
