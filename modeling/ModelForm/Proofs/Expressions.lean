import ModelForm.Proofs.Mapping

/-!
# The expressions and the statements of a statement

A statement lists its expressions in source order, each with what it is to the statement, and it
lists the statements that it is made of, itself last. What is left without the expressions is its
skeleton. All this is defined form by form and without the traversals, so that it can be held
against them.

* `Stmt.expressions_mapRoles` — replacing expressions replaces the items of the list in place.
* `Stmt.skeleton_mapRoles` — and it replaces nothing else.
* `Stmt.mapRoles_congr` — nothing but the items of the list matters to a replacement.
* `Stmt.mem_statements` — the statements of a statement are the statement itself and those of its
  parts.
* `Stmt.statements_rewrite`, `Stmt.rewrite_eq_self_iff` — what rewriting does to the statements of a
  statement, and when it does nothing.
-/

namespace ModelForm

def Truncation.bounds {ε : Type} : Truncation ε → List ε
  | .unbounded     => []
  | .lower bound   => [bound]
  | .upper bound   => [bound]
  | .both low high => [low, high]

def Truncation.skeleton {ε : Type} : Truncation ε → Truncation Unit
  | .unbounded => .unbounded
  | .lower _   => .lower ()
  | .upper _   => .upper ()
  | .both _ _  => .both () ()

namespace Stmt

variable {ε φ : Type}

mutual

/-- The expressions in the order in which they are written, inner statements included. -/
def expressions : Stmt ε → List (Role × ε)
  | .assign target _ value => [(.other, target), (.other, value)]
  | .tilde outcome _ args truncation =>
    (outcome :: (args ++ truncation.bounds)).map (Prod.mk .other)
  | .targetPlus amount => [(.other, amount)]
  | .incrementLogProb amount => [(.other, amount)]
  | .call _ _ args => args.map (Prod.mk .other)
  | .forLoop _ lower upper body =>
    (.loopBound, lower) :: (.loopBound, upper) :: expressions body
  | .whileLoop test body => (.other, test) :: expressions body
  | .branch test yes no => (.other, test) :: (expressions yes ++ expressionsOption no)
  | .block body => expressionsList body
  | .print args => args.map (Prod.mk .other)
  | .reject args => args.map (Prod.mk .other)
  | .ret value => value.toList.map (Prod.mk .other)
  | .breakLoop | .continueLoop | .skip => []

def expressionsList : List (Stmt ε) → List (Role × ε)
  | []      => []
  | s :: ss => expressions s ++ expressionsList ss

def expressionsOption : Option (Stmt ε) → List (Role × ε)
  | none   => []
  | some s => expressions s

end

theorem expressionsList_eq_flatMap (ss : List (Stmt ε)) :
    expressionsList ss = ss.flatMap expressions := by
  induction ss with
  | nil => rfl
  | cons s ss ih => rw [expressionsList, ih, List.flatMap_cons]

/-- Each expression is replaced in its place and keeps its role. -/
theorem expressions_mapRoles (f : Role → ε → φ) (s : Stmt ε) :
    (s.mapRoles f).expressions = s.expressions.map fun item => (item.1, f item.1 item.2) := by
  induction s using induct with
  | forLoop var lower upper body ih =>
    rw [mapRoles_forLoop, expressions, expressions, ih]
    rfl
  | whileLoop test body ih =>
    rw [mapRoles_whileLoop, expressions, expressions, ih]
    rfl
  | branch test yes no ihyes ihno =>
    rw [mapRoles_branch, expressions, expressions, ihyes, List.map_cons, List.map_append]
    cases no with
    | none => rfl
    | some no =>
      rw [Option.map_some, expressionsOption, expressionsOption, ihno no rfl]
  | block body ih =>
    rw [mapRoles_block, expressions, expressions, expressionsList_eq_flatMap,
      expressionsList_eq_flatMap, List.flatMap_map, List.map_flatMap, List.flatMap_def,
      List.flatMap_def, List.map_congr_left ih]
  | other s h =>
    cases s with
    | forLoop | whileLoop | branch | block => cases h
    | tilde outcome distribution args truncation =>
      cases truncation <;>
        simp [mapRoles, traverseRoles, expressions, Truncation.traverse, Truncation.bounds]
    | ret value => cases value <;> rfl
    | _ => simp [mapRoles, traverseRoles, expressions]

/-- Replacements that agree on the expressions of a statement do the same to it. -/
theorem mapRoles_congr {f g : Role → ε → φ} {s : Stmt ε}
    (h : ∀ role e, (role, e) ∈ s.expressions → f role e = g role e) :
    s.mapRoles f = s.mapRoles g := by
  induction s using induct with
  | forLoop var lower upper body ih =>
    simp only [expressions, List.mem_cons] at h
    rw [mapRoles_forLoop, mapRoles_forLoop, h _ lower (by simp), h _ upper (by simp), ih]
    exact fun role e he => h role e (by simp [he])
  | whileLoop test body ih =>
    simp only [expressions, List.mem_cons] at h
    rw [mapRoles_whileLoop, mapRoles_whileLoop, h _ test (by simp), ih]
    exact fun role e he => h role e (by simp [he])
  | branch test yes no ihyes ihno =>
    simp only [expressions, List.mem_cons, List.mem_append] at h
    rw [mapRoles_branch, mapRoles_branch, h _ test (by simp), ihyes]
    · congr 1
      apply Option.map_congr
      rintro s rfl
      exact ihno s rfl fun role e he => h role e (by simp [expressionsOption, he])
    · exact fun role e he => h role e (by simp [he])
  | block body ih =>
    simp only [expressions, expressionsList_eq_flatMap, List.mem_flatMap] at h
    rw [mapRoles_block, mapRoles_block]
    congr 1
    apply List.map_congr_left
    intro s hs
    exact ih s hs fun role e he => h role e ⟨s, hs, he⟩
  | other s hs =>
    cases s with
    | forLoop | whileLoop | branch | block => cases hs
    | tilde outcome distribution args truncation =>
      cases truncation <;>
        simp_all [mapRoles, traverseRoles, expressions, Truncation.traverse, Truncation.bounds]
    | ret value => cases value <;> simp_all [expressions]
    | _ => simp_all [mapRoles, traverseRoles, expressions]

theorem mapRoles_id (s : Stmt ε) : s.mapRoles (fun _ e => e) = s := by
  induction s using induct with
  | forLoop var lower upper body ih => rw [mapRoles_forLoop, ih]
  | whileLoop test body ih => rw [mapRoles_whileLoop, ih]
  | branch test yes no ihyes ihno =>
    rw [mapRoles_branch, ihyes, Option.map_congr ihno, Option.map_id']
  | block body ih => rw [mapRoles_block, List.map_congr_left ih, List.map_id']
  | other s h =>
    cases s with
    | forLoop | whileLoop | branch | block => cases h
    | tilde outcome distribution args truncation =>
      cases truncation <;> simp [mapRoles, traverseRoles, Truncation.traverse]
    | ret value => cases value <;> rfl
    | _ => simp [mapRoles, traverseRoles]

/-- A replacement that keeps every expression keeps the statement. -/
theorem mapRoles_eq_self {f : Role → ε → ε} {s : Stmt ε}
    (h : ∀ role e, (role, e) ∈ s.expressions → f role e = e) : s.mapRoles f = s :=
  (mapRoles_congr h).trans (mapRoles_id s)

/-! ## Skeletons -/

mutual

/-- The statement with nothing in the places of its expressions. All that is not an expression is
still there: the form and the nesting, names, operators, and how many expressions there are. -/
def skeleton : Stmt ε → Stmt Unit
  | .assign _ op _ => .assign () op ()
  | .tilde _ distribution args truncation =>
    .tilde () distribution (args.map fun _ => ()) truncation.skeleton
  | .targetPlus _ => .targetPlus ()
  | .incrementLogProb _ => .incrementLogProb ()
  | .call kind name args => .call kind name (args.map fun _ => ())
  | .forLoop var _ _ body => .forLoop var () () (skeleton body)
  | .whileLoop _ body => .whileLoop () (skeleton body)
  | .branch _ yes no => .branch () (skeleton yes) (skeletonOption no)
  | .block body => .block (skeletonList body)
  | .print args => .print (args.map fun _ => ())
  | .reject args => .reject (args.map fun _ => ())
  | .ret value => .ret (value.map fun _ => ())
  | .breakLoop => .breakLoop
  | .continueLoop => .continueLoop
  | .skip => .skip

def skeletonList : List (Stmt ε) → List (Stmt Unit)
  | []      => []
  | s :: ss => skeleton s :: skeletonList ss

def skeletonOption : Option (Stmt ε) → Option (Stmt Unit)
  | none   => none
  | some s => some (skeleton s)

end

theorem skeletonList_eq_map (ss : List (Stmt ε)) : skeletonList ss = ss.map skeleton := by
  induction ss with
  | nil => rfl
  | cons s ss ih => rw [skeletonList, ih, List.map_cons]

@[simp] theorem skeleton_block (body : List (Stmt ε)) :
    (block body).skeleton = block (body.map skeleton) := by
  rw [skeleton, skeletonList_eq_map]

/-- Replacing every expression by nothing leaves the skeleton. -/
theorem mapRoles_unit (s : Stmt ε) : s.mapRoles (fun _ _ => ()) = s.skeleton := by
  induction s using induct with
  | forLoop var lower upper body ih => rw [mapRoles_forLoop, skeleton, ih]
  | whileLoop test body ih => rw [mapRoles_whileLoop, skeleton, ih]
  | branch test yes no ihyes ihno =>
    rw [mapRoles_branch, skeleton, ihyes, Option.map_congr ihno]
    cases no <;> rfl
  | block body ih => rw [mapRoles_block, skeleton_block, List.map_congr_left ih]
  | other s h =>
    cases s with
    | forLoop | whileLoop | branch | block => cases h
    | tilde outcome distribution args truncation =>
      cases truncation <;>
        simp only [mapRoles, traverseRoles, List.mapM_pure, bind_pure_comp, map_pure,
          Truncation.traverse, Id.run_pure, skeleton, Truncation.skeleton]
    | call | print | reject =>
      simp only [mapRoles, traverseRoles, List.mapM_pure, pure_bind, Id.run_pure, skeleton]
    | ret value => cases value <;> rfl
    | _ => rfl

/-- Nothing but expressions is replaced. -/
theorem skeleton_mapRoles (f : Role → ε → φ) (s : Stmt ε) :
    (s.mapRoles f).skeleton = s.skeleton := by
  rw [← mapRoles_unit, ← mapRoles_unit, mapRoles_mapRoles]

/-! ## Statements of a statement -/

/-- The statements that stand directly in the statement, from left to right. -/
def parts : Stmt ε → List (Stmt ε)
  | .forLoop _ _ _ body | .whileLoop _ body => [body]
  | .branch _ yes no                        => yes :: no.toList
  | .block body                             => body
  | _                                       => []

mutual

/-- All statements that the statement is made of, each after those that stand in it. -/
def statements : Stmt ε → List (Stmt ε)
  | .forLoop var lower upper body => statements body ++ [.forLoop var lower upper body]
  | .whileLoop test body          => statements body ++ [.whileLoop test body]
  | .branch test yes no           =>
    statements yes ++ statementsOption no ++ [.branch test yes no]
  | .block body                   => statementsList body ++ [.block body]
  | s                             => [s]

def statementsList : List (Stmt ε) → List (Stmt ε)
  | []      => []
  | s :: ss => statements s ++ statementsList ss

def statementsOption : Option (Stmt ε) → List (Stmt ε)
  | none   => []
  | some s => statements s

end

theorem statementsList_eq_flatMap (ss : List (Stmt ε)) :
    statementsList ss = ss.flatMap statements := by
  induction ss with
  | nil => rfl
  | cons s ss ih => rw [statementsList, ih, List.flatMap_cons]

/-- The statements of a statement unfold at the statement itself. -/
theorem statements_eq (s : Stmt ε) : s.statements = s.parts.flatMap statements ++ [s] := by
  cases s with
  | branch test yes no => cases no <;> simp [statements, statementsOption, parts]
  | block body => rw [statements, statementsList_eq_flatMap, parts]
  | _ => simp [statements, parts]

theorem mem_statements {s t : Stmt ε} :
    t ∈ s.statements ↔ t = s ∨ ∃ c ∈ s.parts, t ∈ c.statements := by
  rw [statements_eq, List.mem_append, List.mem_flatMap, List.mem_singleton, or_comm]

/-- A property of all statements of a statement is one of the statement itself and of all those of
its parts. -/
theorem forall_mem_statements {P : Stmt ε → Prop} {s : Stmt ε} :
    (∀ t ∈ s.statements, P t) ↔ P s ∧ ∀ c ∈ s.parts, ∀ t ∈ c.statements, P t := by
  constructor
  · intro h
    exact ⟨h s (mem_statements.mpr (Or.inl rfl)),
      fun c hc t ht => h t (mem_statements.mpr (Or.inr ⟨c, hc, ht⟩))⟩
  · rintro ⟨hself, hparts⟩ t ht
    rcases mem_statements.mp ht with rfl | ⟨c, hc, ht⟩
    · exact hself
    · exact hparts c hc t ht

/-! ## Rewriting statements

A statement unfolds into its parts, and a rewriting unfolds with it (`rewrite_eq`). What is left of
a proof about rewritings is then one case for all forms. -/

def mapParts (g : Stmt ε → Stmt ε) : Stmt ε → Stmt ε
  | .forLoop var lower upper body => .forLoop var lower upper (g body)
  | .whileLoop test body          => .whileLoop test (g body)
  | .branch test yes no           => .branch test (g yes) (no.map g)
  | .block body                   => .block (body.map g)
  | s                             => s

/-- What holds of a statement whenever it holds of its parts holds of every statement. -/
theorem partInduct {motive : Stmt ε → Prop}
    (step : ∀ s : Stmt ε, (∀ c ∈ s.parts, motive c) → motive s) (s : Stmt ε) : motive s := by
  induction s using induct with
  | forLoop var lower upper body ih => exact step _ (by simpa [parts] using ih)
  | whileLoop test body ih => exact step _ (by simpa [parts] using ih)
  | branch test yes no ihyes ihno => exact step _ (by simpa [parts] using ⟨ihyes, ihno⟩)
  | block body ih => exact step _ ih
  | other s h =>
    apply step
    cases s with
    | forLoop | whileLoop | branch | block => cases h
    | _ => simp [parts]

theorem rewrite_eq (f : Stmt ε → Stmt ε) (s : Stmt ε) :
    s.rewrite f = f (s.mapParts (rewrite f)) := by
  cases s with
  | branch test yes no => exact rewrite_branch f test yes no
  | block body => exact rewrite_block f body
  | _ => rfl

@[simp] theorem parts_mapParts (g : Stmt ε → Stmt ε) (s : Stmt ε) :
    (s.mapParts g).parts = s.parts.map g := by
  cases s with
  | branch test yes no => cases no <;> rfl
  | _ => rfl

@[simp] theorem isCompound_mapParts (g : Stmt ε → Stmt ε) (s : Stmt ε) :
    (s.mapParts g).isCompound = s.isCompound := by
  cases s <;> rfl

theorem mapParts_of_not_compound {s : Stmt ε} (h : s.isCompound = false) (g : Stmt ε → Stmt ε) :
    s.mapParts g = s := by
  cases s with
  | forLoop | whileLoop | branch | block => cases h
  | _ => rfl

theorem parts_of_not_compound {s : Stmt ε} (h : s.isCompound = false) : s.parts = [] := by
  cases s with
  | forLoop | whileLoop | branch | block => cases h
  | _ => rfl

/-- The parts are all that replacing them can change. -/
theorem mapParts_eq_self_iff {g : Stmt ε → Stmt ε} {s : Stmt ε} :
    s.mapParts g = s ↔ ∀ c ∈ s.parts, g c = c := by
  constructor
  · intro h
    have hparts : s.parts.map g = s.parts.map id := by
      rw [← parts_mapParts, h, List.map_id]
    exact List.map_inj_left.mp hparts
  · intro h
    cases s with
    | branch test yes no => cases no <;> simp_all [mapParts, parts]
    | block body => exact congrArg block ((List.map_congr_left h).trans (List.map_id body))
    | _ => simp_all [mapParts, parts]

/-- What stands in a statement is replaced in its place, as long as the statements that hold others
are left alone and no other statement becomes one of them. -/
theorem statements_rewrite {f : Stmt ε → Stmt ε}
    (hcompound : ∀ s : Stmt ε, s.isCompound = true → f s = s)
    (hkept : ∀ s : Stmt ε, (f s).isCompound = s.isCompound) (s : Stmt ε) :
    (s.rewrite f).statements = s.statements.map (rewrite f) := by
  induction s using partInduct with
  | step s ih =>
    rw [statements_eq, statements_eq s, List.map_append, List.map_flatMap]
    congr 1
    have hparts : (s.rewrite f).parts = s.parts.map (rewrite f) := by
      rw [rewrite_eq]
      cases h : s.isCompound with
      | true => rw [hcompound _ (by simpa using h), parts_mapParts]
      | false =>
        rw [mapParts_of_not_compound h, parts_of_not_compound ((hkept s).trans h),
          parts_of_not_compound h, List.map_nil]
    rw [hparts, List.flatMap_map, List.flatMap_def, List.flatMap_def, List.map_congr_left ih]

theorem parts_mapRoles (r : Role → ε → φ) (s : Stmt ε) :
    (s.mapRoles r).parts = s.parts.map (mapRoles r) := by
  cases s with
  | branch test yes no => cases no <;> rfl
  | block body => rw [mapRoles_block, parts, parts]
  | ret value => cases value <;> rfl
  | _ => rfl

theorem statements_mapRoles (r : Role → ε → φ) (s : Stmt ε) :
    (s.mapRoles r).statements = s.statements.map (mapRoles r) := by
  induction s using partInduct with
  | step s ih =>
    rw [statements_eq, statements_eq s, List.map_append, List.map_flatMap, parts_mapRoles,
      List.flatMap_map, List.flatMap_def, List.flatMap_def, List.map_congr_left ih]
    rfl

/-- A pass that replaces expressions and then rewrites statements works on each statement in its
place. -/
theorem statements_map_rewrite {f : Stmt φ → Stmt φ}
    (hcompound : ∀ s : Stmt φ, s.isCompound = true → f s = s)
    (hkept : ∀ s : Stmt φ, (f s).isCompound = s.isCompound) (g : ε → φ) (s : Stmt ε) :
    ((s.map g).rewrite f).statements = s.statements.map fun t => (t.map g).rewrite f := by
  rw [statements_rewrite hcompound hkept, map, statements_mapRoles, List.map_map]
  rfl

/-- A rewriting that leaves alone the statements that hold others leaves a statement alone exactly
if it leaves alone all statements in it. -/
theorem rewrite_eq_self_iff {f : Stmt ε → Stmt ε}
    (hcompound : ∀ s : Stmt ε, s.isCompound = true → f s = s) {s : Stmt ε} :
    s.rewrite f = s ↔ ∀ t ∈ s.statements, f t = t := by
  induction s using partInduct with
  | step s ih =>
    rw [rewrite_eq, forall_mem_statements, ← forall₂_congr ih]
    cases h : s.isCompound with
    | true =>
      rw [hcompound _ (by simpa using h), mapParts_eq_self_iff]
      exact (and_iff_right (hcompound s h)).symm
    | false => simp [mapParts_of_not_compound h, parts_of_not_compound h]

/-- A rewriting that does not touch expressions leaves the list of them as it is. -/
theorem expressions_rewrite {f : Stmt ε → Stmt ε}
    (h : ∀ s : Stmt ε, (f s).expressions = s.expressions) (s : Stmt ε) :
    (s.rewrite f).expressions = s.expressions := by
  induction s using induct with
  | forLoop var lower upper body ih =>
    rw [rewrite_eq, h, mapParts, expressions, expressions, ih]
  | whileLoop test body ih => rw [rewrite_eq, h, mapParts, expressions, expressions, ih]
  | branch test yes no ihyes ihno =>
    rw [rewrite_eq, h, mapParts, expressions, expressions, ihyes]
    cases no with
    | none => rfl
    | some no => rw [Option.map_some, expressionsOption, expressionsOption, ihno no rfl]
  | block body ih =>
    rw [rewrite_eq, h, mapParts, expressions, expressions, expressionsList_eq_flatMap,
      expressionsList_eq_flatMap, List.flatMap_map, List.flatMap_def, List.flatMap_def,
      List.map_congr_left ih]
  | other s hs => rw [rewrite_eq, mapParts_of_not_compound hs, h]

/-- Rewriting commutes with replacing expressions as soon as it does at each statement. -/
theorem mapRoles_rewrite {f : Stmt ε → Stmt ε} {g : Stmt φ → Stmt φ} {r : Role → ε → φ}
    (h : ∀ s : Stmt ε, (f s).mapRoles r = g (s.mapRoles r)) (s : Stmt ε) :
    (s.rewrite f).mapRoles r = (s.mapRoles r).rewrite g := by
  induction s using induct with
  | forLoop var lower upper body ih =>
    rw [rewrite_eq, h, mapParts, mapRoles_forLoop, ih]
    rfl
  | whileLoop test body ih =>
    rw [rewrite_eq, h, mapParts, mapRoles_whileLoop, ih]
    rfl
  | branch test yes no ihyes ihno =>
    rw [rewrite_eq, h, mapParts, mapRoles_branch, mapRoles_branch, rewrite_branch, ihyes,
      Option.map_map, Option.map_map]
    congr 2
    exact Option.map_congr ihno
  | block body ih =>
    rw [rewrite_eq, h, mapParts, mapRoles_block, mapRoles_block, rewrite_block, List.map_map,
      List.map_map]
    congr 2
    exact List.map_congr_left ih
  | other s hs =>
    have hmapped : (s.mapRoles r).isCompound = false := by
      cases s with
      | forLoop | whileLoop | branch | block => cases hs
      | ret value => cases value <;> rfl
      | _ => rfl
    rw [rewrite_eq, mapParts_of_not_compound hs, rewrite_eq, mapParts_of_not_compound hmapped, h]

/-- Replacing expressions and rewriting statements leaves a statement alone exactly if each of the
two does. -/
theorem rewrite_mapRoles_eq_self_iff {f : Stmt ε → Stmt ε}
    (h : ∀ s : Stmt ε, (f s).expressions = s.expressions) {r : Role → ε → ε} {s : Stmt ε} :
    (s.mapRoles r).rewrite f = s ↔
      s.rewrite f = s ∧ ∀ role e, (role, e) ∈ s.expressions → r role e = e := by
  constructor
  · intro hself
    -- the rewriting has no part in the expressions, so the two lists agree item by item
    have hexprs : ∀ role e, (role, e) ∈ s.expressions → r role e = e := by
      have hlist : s.expressions.map (fun item => (item.1, r item.1 item.2)) =
          s.expressions.map id := by
        rw [List.map_id, ← expressions_mapRoles, ← expressions_rewrite h, hself]
      intro role e he
      exact congrArg Prod.snd (List.map_inj_left.mp hlist (role, e) he)
    rw [mapRoles_eq_self hexprs] at hself
    exact ⟨hself, hexprs⟩
  · rintro ⟨hself, hexprs⟩
    rw [mapRoles_eq_self hexprs, hself]

end Stmt

/-! ## Programs -/

namespace Program

variable {ε φ : Type}

def expressions (p : Program ε) : List (Role × ε) := p.statements.flatMap Stmt.expressions

def allStatements (p : Program ε) : List (Stmt ε) := p.statements.flatMap Stmt.statements

def skeleton (p : Program ε) : Program Unit := ⟨p.statements.map Stmt.skeleton⟩

def mapRoles (f : Role → ε → φ) (p : Program ε) : Program φ :=
  ⟨p.statements.map (Stmt.mapRoles f)⟩

def map (f : ε → φ) (p : Program ε) : Program φ := ⟨p.statements.map (Stmt.map f)⟩

/-- Replacing statements one by one leaves a program alone exactly if it leaves each of them
alone. -/
theorem mk_map_eq_self_iff {g : Stmt ε → Stmt ε} {p : Program ε} :
    Program.mk (p.statements.map g) = p ↔ ∀ s ∈ p.statements, g s = s := by
  obtain ⟨ss⟩ := p
  rw [mk.injEq]
  constructor
  · intro h
    exact List.map_inj_left.mp (h.trans (List.map_id ss).symm)
  · intro h
    exact (List.map_congr_left h).trans (List.map_id ss)

/-- What is asked of all statements and expressions of each top-level statement is asked of all
those of the program. -/
theorem forall_statements_iff {P : Stmt ε → Prop} {Q : Role → ε → Prop} {p : Program ε} :
    (∀ s ∈ p.statements, (∀ t ∈ s.statements, P t) ∧
        ∀ role e, (role, e) ∈ s.expressions → Q role e) ↔
      (∀ t ∈ p.allStatements, P t) ∧ ∀ role e, (role, e) ∈ p.expressions → Q role e := by
  constructor
  · intro h
    refine ⟨?_, ?_⟩
    · intro t ht
      obtain ⟨s, hs, ht⟩ := List.mem_flatMap.mp ht
      exact (h s hs).1 t ht
    · intro role e he
      obtain ⟨s, hs, he⟩ := List.mem_flatMap.mp he
      exact (h s hs).2 role e he
  · rintro ⟨hstatements, hexprs⟩ s hs
    exact ⟨fun t ht => hstatements t (List.mem_flatMap_of_mem hs ht),
      fun role e he => hexprs role e (List.mem_flatMap_of_mem hs he)⟩

theorem expressions_mapRoles (f : Role → ε → φ) (p : Program ε) :
    (p.mapRoles f).expressions = p.expressions.map fun item => (item.1, f item.1 item.2) := by
  rw [expressions, expressions, mapRoles, List.flatMap_map, List.map_flatMap,
    funext (Stmt.expressions_mapRoles f)]

theorem skeleton_mapRoles (f : Role → ε → φ) (p : Program ε) :
    (p.mapRoles f).skeleton = p.skeleton := by
  rw [skeleton, skeleton, mapRoles, List.map_map]
  congr 1
  exact List.map_congr_left fun s _ => Stmt.skeleton_mapRoles f s

theorem mapRoles_congr {f g : Role → ε → φ} {p : Program ε}
    (h : ∀ role e, (role, e) ∈ p.expressions → f role e = g role e) :
    p.mapRoles f = p.mapRoles g := by
  rw [mapRoles, mapRoles]
  congr 1
  apply List.map_congr_left
  intro s hs
  apply Stmt.mapRoles_congr
  intro role e he
  exact h role e (List.mem_flatMap_of_mem hs he)

/-- A traversal without effects is a replacement that does not look at roles. -/
theorem run_traverse (f : ε → φ) (p : Program ε) :
    Id.run (p.traverse fun e => pure (f e)) = p.mapRoles fun _ => f := by
  show Program.mk (Id.run (p.statements.mapM (Stmt.traverse fun e => pure (f e)))) = _
  rw [List.idRun_mapM]
  rfl

end Program

end ModelForm
