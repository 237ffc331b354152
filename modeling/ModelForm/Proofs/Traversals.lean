import ModelForm.Proofs.CanonicalForm

/-!
# What the traversals of statements visit

The expressions and the statements of a statement are visited by actions that may have effects, so
it matters how often and in which order the actions run. What there is to visit is listed without
the traversals: `Stmt.exprs` has the expressions in source order, `Stmt.statements` the statements
from the inside out.

* `Stmt.exprs_traverse` — a traversal runs its action down the list of expressions, for any effects.
* `Stmt.skeleton_traverse`, `Stmt.eq_iff_skeleton` — nothing else is replaced, for a statement is
  its skeleton and its expressions.
* `Stmt.transform_eq` — a transformation works on the parts first, then on the statement.
* `Stmt.Rewriting` — the calls that rewrite a list of statements, each with its answer. A
  transformation makes such calls one after the other (`Stmt.exists_calls`).
* `traversals_lawful` — both together, and the same for the expressions of a program.
-/

namespace ModelForm

variable {ε φ σ : Type}

/-! ## Runs down a list -/

section Runs

variable (f : ε → StateM σ φ)

theorem mapM_cons_apply (e : ε) (es : List ε) (state : σ) :
    (e :: es).mapM f state =
      ((f e state).1 :: (es.mapM f (f e state).2).1, (es.mapM f (f e state).2).2) := by
  rw [List.mapM_cons]
  rfl

theorem mapM_append_apply (es es' : List ε) (state : σ) :
    (es ++ es').mapM f state =
      ((es.mapM f state).1 ++ (es'.mapM f (es.mapM f state).2).1,
        (es'.mapM f (es.mapM f state).2).2) := by
  rw [List.mapM_append]
  rfl

theorem length_mapM (es : List ε) (state : σ) : (es.mapM f state).1.length = es.length := by
  have h := congrArg List.length (Node.map_unit_mapM f es state)
  rwa [List.length_map, List.length_map] at h

end Runs

/-! ## Expressions of a statement -/

namespace Stmt

/-- The expressions in the order in which they are written, without their roles. -/
def exprs (s : Stmt ε) : List ε := s.expressions.map Prod.snd

@[simp] theorem exprs_tilde (outcome : ε) (distribution : String) (args : List ε)
    (truncation : Truncation ε) :
    (tilde outcome distribution args truncation).exprs =
      outcome :: (args ++ truncation.bounds) := by
  simp [exprs, expressions, Function.comp_def]

@[simp] theorem exprs_call (kind : CallKind) (name : String) (args : List ε) :
    (call kind name args).exprs = args := by
  simp [exprs, expressions, Function.comp_def]

@[simp] theorem exprs_print (args : List ε) : (print args).exprs = args := by
  simp [exprs, expressions, Function.comp_def]

@[simp] theorem exprs_reject (args : List ε) : (reject args).exprs = args := by
  simp [exprs, expressions, Function.comp_def]

@[simp] theorem exprs_ret (value : Option ε) : (ret value).exprs = value.toList := by
  simp [exprs, expressions, Function.comp_def]

@[simp] theorem exprs_forLoop (var : String) (lower upper : ε) (body : Stmt ε) :
    (forLoop var lower upper body).exprs = lower :: upper :: body.exprs := rfl

@[simp] theorem exprs_whileLoop (test : ε) (body : Stmt ε) :
    (whileLoop test body).exprs = test :: body.exprs := rfl

@[simp] theorem exprs_branch (test : ε) (yes : Stmt ε) (no : Option (Stmt ε)) :
    (branch test yes no).exprs = test :: (yes.exprs ++ no.toList.flatMap exprs) := by
  cases no <;> simp [exprs, expressions, expressionsOption]

@[simp] theorem exprs_block (body : List (Stmt ε)) : (block body).exprs = body.flatMap exprs := by
  rw [exprs, expressions, expressionsList_eq_flatMap, List.map_flatMap]
  rfl

theorem exprs_map (f : ε → φ) (s : Stmt ε) : (s.map f).exprs = s.exprs.map f := by
  rw [exprs, map, expressions_mapRoles, exprs, List.map_map, List.map_map]
  rfl

end Stmt

/-! ## The order of visits -/

section Effects

variable {m : Type → Type v} [Monad m] [LawfulMonad m]

theorem Truncation.bounds_traverse (f : ε → m φ) (t : Truncation ε) :
    bounds <$> t.traverse f = t.bounds.mapM f := by
  cases t <;> simp [traverse, bounds]

namespace Stmt

theorem traverseRolesList_eq_mapM (f : Role → ε → m φ) (ss : List (Stmt ε)) :
    traverseRolesList f ss = ss.mapM (traverseRoles f) := by
  induction ss with
  | nil => rw [traverseRolesList, List.mapM_nil]
  | cons s ss ih => rw [traverseRolesList, List.mapM_cons, ih]

/-- A traversal runs its action on the expressions in the order of the list, once on each, and
leaves the results where the expressions were. -/
theorem exprs_traverse (f : ε → m φ) (s : Stmt ε) : exprs <$> s.traverse f = s.exprs.mapM f := by
  unfold traverse
  induction s using induct with
  | forLoop var lower upper body ih => simp [traverseRoles, ← ih]
  | whileLoop test body ih => simp [traverseRoles, ← ih]
  | branch test yes no ihyes ihno =>
    cases no with
    | none => simp [traverseRoles, traverseRolesOption, ← ihyes]
    | some no => simp [traverseRoles, traverseRolesOption, ← ihyes, ← ihno no rfl]
  | block body ih =>
    -- The run through the block is split at each statement, which is an induction of its own.
    have hlist : List.flatMap exprs <$> body.mapM (traverseRoles fun _ => f) =
        (body.flatMap exprs).mapM f := by
      induction body with
      | nil => simp
      | cons s ss ihss =>
        have hs := ih s List.mem_cons_self
        have hss := ihss fun t ht => ih t (List.mem_cons_of_mem s ht)
        simp [← hs, ← hss]
    simp [traverseRoles, traverseRolesList_eq_mapM, ← hlist]
  | other s h =>
    cases s with
    | forLoop | whileLoop | branch | block => cases h
    | tilde outcome distribution args truncation =>
      simp [traverseRoles, ← Truncation.bounds_traverse]
    | ret value => cases value <;> simp [traverseRoles]
    | call | print | reject => simp [traverseRoles]
    | _ => simp [traverseRoles, exprs, expressions]

end Stmt

end Effects

/-! ## What is not replaced -/

theorem Truncation.skeleton_traverse (f : ε → StateM σ φ) (t : Truncation ε) (state : σ) :
    (t.traverse f state).1.skeleton = t.skeleton := by
  cases t <;> rfl

namespace Stmt

/-- A traversal keeps the skeleton. -/
theorem skeleton_traverse (f : ε → StateM σ φ) (s : Stmt ε) (state : σ) :
    (s.traverse f state).1.skeleton = s.skeleton := by
  induction s using induct generalizing state with
  | forLoop var lower upper body ih => exact congrArg (forLoop var () ()) (ih _)
  | whileLoop test body ih => exact congrArg (whileLoop ()) (ih _)
  | branch test yes no ihyes ihno =>
    cases no with
    | none => exact congrArg (branch () · none) (ihyes _)
    | some no => exact congr (congrArg (branch ()) (ihyes _)) (congrArg some (ihno no rfl _))
  | block body ih =>
    have hlist (state : σ) : (body.mapM (traverse f) state).1.map skeleton = body.map skeleton := by
      induction body generalizing state with
      | nil => rfl
      | cons s ss ihss =>
        have hs := ih s List.mem_cons_self state
        have hss := ihss fun t ht => ih t (List.mem_cons_of_mem s ht)
        rw [mapM_cons_apply, List.map_cons, List.map_cons, hs, hss]
    rw [traverse, traverseRoles, traverseRolesList_eq_mapM, skeleton_block, ← hlist state]
    exact skeleton_block _
  | other s h =>
    cases s with
    | forLoop | whileLoop | branch | block => cases h
    | tilde outcome distribution args truncation =>
      show skeleton (tilde _ distribution (args.mapM f _).1 (truncation.traverse f _).1) = _
      rw [skeleton, skeleton, Node.map_unit_mapM, Truncation.skeleton_traverse]
    | call kind name args =>
      show skeleton (call kind name (args.mapM f state).1) = _
      rw [skeleton, skeleton, Node.map_unit_mapM]
    | print args =>
      show skeleton (print (args.mapM f state).1) = _
      rw [skeleton, skeleton, Node.map_unit_mapM]
    | reject args =>
      show skeleton (reject (args.mapM f state).1) = _
      rw [skeleton, skeleton, Node.map_unit_mapM]
    | ret value => cases value <;> rfl
    | _ => rfl

/-- A skeleton takes exactly its statement's expressions from a supply. -/
theorem traverse_next (s : Stmt ε) (rest : List ε) :
    (s.skeleton.traverse fun _ => Node.next).run (s.exprs ++ rest) = some (s, rest) := by
  rw [← mapRoles_unit]
  unfold traverse
  induction s using induct generalizing rest with
  | forLoop var lower upper body ih => simp [traverseRoles, ih]
  | whileLoop test body ih => simp [traverseRoles, ih]
  | branch test yes no ihyes ihno =>
    cases no with
    | none => simp [traverseRoles, traverseRolesOption, ihyes]
    | some no => simp [traverseRoles, traverseRolesOption, ihyes, ihno no rfl]
  | block body ih =>
    have hlist (rest : List ε) : (traverseRolesList (fun _ _ => Node.next)
        (body.map (mapRoles fun _ _ => ()))).run (body.flatMap exprs ++ rest) =
          some (body, rest) := by
      induction body generalizing rest with
      | nil => rfl
      | cons s ss ihss =>
        have hs := ih s List.mem_cons_self
        have hss := ihss fun t ht => ih t (List.mem_cons_of_mem s ht)
        simp [traverseRolesList, hs, hss]
    simp [traverseRoles, hlist]
  | other s h =>
    cases s with
    | forLoop | whileLoop | branch | block => cases h
    | tilde outcome distribution args truncation =>
      cases truncation <;>
        simp only [mapRoles, traverseRoles, List.mapM_pure, Truncation.traverse, bind_pure_comp,
          map_pure, Id.run_pure, map_bind, Functor.map_map, exprs_tilde, Truncation.bounds,
          List.cons_append, List.append_assoc, List.nil_append, StateT.run_bind,
          Node.run_next_cons, StateT.run_map, Option.map_eq_map, Option.bind_eq_bind,
          Option.bind_some, Node.mapM_next, Option.map_some]
    | call | print | reject =>
      simp only [mapRoles, traverseRoles, List.mapM_pure, bind_pure_comp, map_pure, Id.run_pure,
        exprs_call, exprs_print, exprs_reject, StateT.run_map, Node.mapM_next, Option.map_eq_map,
        Option.map_some]
    | ret value => cases value <;> simp [traverseRoles]
    | _ => simp [mapRoles, traverseRoles, exprs, expressions]

/-- A statement is its skeleton and its expressions. -/
theorem eq_iff_skeleton {s t : Stmt ε} :
    s = t ↔ s.skeleton = t.skeleton ∧ s.exprs = t.exprs := by
  constructor
  · rintro rfl
    exact ⟨rfl, rfl⟩
  · rintro ⟨hskeleton, hexprs⟩
    have hs := traverse_next s []
    have ht := traverse_next t []
    rw [hskeleton, hexprs, ht] at hs
    exact congrArg Prod.fst (Option.some.inj hs.symm)

/-! ## Visits to expressions -/

theorem traverse_apply (f : ε → StateM σ φ) (s : Stmt ε) (state : σ) :
    ((s.traverse f state).1.exprs, (s.traverse f state).2) = s.exprs.mapM f state := by
  rw [← exprs_traverse]
  rfl

/-- Without effects a traversal is a map. -/
theorem traverse_pure (f : ε → φ) (s : Stmt ε) (state : σ) :
    s.traverse (fun e => (pure (f e) : StateM σ φ)) state = (s.map f, state) := by
  have hrun := traverse_apply (fun e => (pure (f e) : StateM σ φ)) s state
  rw [List.mapM_pure] at hrun
  obtain ⟨hexprs, hstate⟩ := Prod.mk.inj hrun
  refine Prod.ext (eq_iff_skeleton.mpr ⟨?_, ?_⟩) hstate
  · rw [skeleton_traverse, map, skeleton_mapRoles]
  · rw [exprs_map]
    exact hexprs

/-! ## Parts of a statement -/

/-- The statement with other parts, as many as it has. -/
def withParts : Stmt ε → List (Stmt ε) → Stmt ε
  | .forLoop var lower upper _, [body] => .forLoop var lower upper body
  | .whileLoop test _, [body]          => .whileLoop test body
  | .branch test _ none, [yes]         => .branch test yes none
  | .branch test _ (some _), [yes, no] => .branch test yes (some no)
  | .block _, body                     => .block body
  | s, _                               => s

/-- The statement with nothing in the places of its parts. -/
def hollow (s : Stmt ε) : Stmt ε := s.mapParts fun _ => .skip

/-- Other parts change nothing but the parts. -/
theorem parts_withParts {s : Stmt ε} {parts : List (Stmt ε)} (h : parts.length = s.parts.length) :
    (s.withParts parts).parts = parts ∧ (s.withParts parts).hollow = s.hollow := by
  cases s with
  | forLoop | whileLoop =>
    obtain ⟨body, rfl⟩ := List.length_eq_one_iff.mp h
    exact ⟨rfl, rfl⟩
  | branch test yes no =>
    cases no with
    | none =>
      obtain ⟨yes, rfl⟩ := List.length_eq_one_iff.mp h
      exact ⟨rfl, rfl⟩
    | some no =>
      match parts, h with
      | [_, _], _ => exact ⟨rfl, rfl⟩
  | block body =>
    have hlength : parts.length = body.length := h
    refine ⟨rfl, ?_⟩
    simp [withParts, hollow, mapParts, List.map_const', hlength]
  | _ => exact ⟨(List.eq_nil_of_length_eq_zero h).symm, rfl⟩

theorem withParts_hollow (s : Stmt ε) : s.hollow.withParts s.parts = s := by
  cases s with
  | branch test yes no => cases no <;> rfl
  | _ => rfl

/-- A statement is what is left without its parts, and its parts. -/
theorem eq_iff_hollow {s t : Stmt ε} : s = t ↔ s.hollow = t.hollow ∧ s.parts = t.parts := by
  constructor
  · rintro rfl
    exact ⟨rfl, rfl⟩
  · rintro ⟨hhollow, hparts⟩
    rw [← withParts_hollow s, hhollow, hparts, withParts_hollow]

/-! ## Calls of a transformation -/

section Effects

variable {m : Type → Type v} [Monad m] [LawfulMonad m]

theorem transformList_eq_mapM (f : Stmt ε → m (Stmt ε)) (ss : List (Stmt ε)) :
    transformList f ss = ss.mapM (transform f) := by
  induction ss with
  | nil => rw [transformList, List.mapM_nil]
  | cons s ss ih => rw [transformList, List.mapM_cons, ih]

/-- A transformation works on the parts from left to right, and then on the statement with what has
become of them. -/
theorem transform_eq (f : Stmt ε → m (Stmt ε)) (s : Stmt ε) :
    s.transform f = s.parts.mapM (transform f) >>= fun parts => f (s.withParts parts) := by
  cases s with
  | branch test yes no => cases no <;> simp [transform, transformOption, parts, withParts]
  | block body => simp [transform, transformList_eq_mapM, parts, withParts]
  | _ => simp [transform, parts, withParts]

end Effects

/-- How a list of statements is rewritten by calls that each have an answer. A statement is given to
its call with the answers for its parts in their places, and is otherwise as it was. The calls for
its parts come before, those for the statements behind it follow. -/
inductive Rewriting : List (Stmt ε) → List (Stmt ε × Stmt ε) → List (Stmt ε) → Prop
  | nil : Rewriting [] [] []
  | cons {s given answer : Stmt ε} {ss answers : List (Stmt ε)}
      {inner later : List (Stmt ε × Stmt ε)} (parts : Rewriting s.parts inner given.parts)
      (same : given.hollow = s.hollow) (rest : Rewriting ss later answers) :
      Rewriting (s :: ss) (inner ++ (given, answer) :: later) (answer :: answers)

/-- There is one call for each statement, in the order in which the statements are listed. -/
theorem Rewriting.hollow_calls {ss answers : List (Stmt ε)} {calls : List (Stmt ε × Stmt ε)}
    (h : Rewriting ss calls answers) :
    calls.map (fun call => call.1.hollow) = (ss.flatMap statements).map hollow := by
  induction h with
  | nil => rfl
  | @cons s given answer ss answers inner later parts same rest ihparts ihrest =>
    rw [List.map_append, List.map_cons, ihparts, ihrest, List.flatMap_cons, statements_eq s, same]
    simp

section Calls

variable (f : Stmt ε → StateM σ (Stmt ε))

/-- The calls that are made for a list of statements, once it is known which ones are made for the
parts of each. -/
theorem exists_calls_of_parts {ss : List (Stmt ε)}
    (h : ∀ s ∈ ss, ∀ state, ∃ calls,
      Rewriting s.parts calls (s.parts.mapM (transform f) state).1 ∧
        (calls.map Prod.fst).mapM f state =
          (calls.map Prod.snd, (s.parts.mapM (transform f) state).2)) (state : σ) :
    ∃ calls, Rewriting ss calls (ss.mapM (transform f) state).1 ∧
      (calls.map Prod.fst).mapM f state =
        (calls.map Prod.snd, (ss.mapM (transform f) state).2) := by
  induction ss generalizing state with
  | nil => exact ⟨[], .nil, rfl⟩
  | cons s ss ih =>
    -- the runs for the parts, for the statement itself and for what is behind it, in this order
    obtain ⟨inner, hinner, hruninner⟩ := h s List.mem_cons_self state
    generalize hparts : s.parts.mapM (transform f) state = partsRun at hinner hruninner
    generalize hcall : f (s.withParts partsRun.1) partsRun.2 = callRun
    obtain ⟨later, hlater, hrunlater⟩ := ih (fun t ht => h t (List.mem_cons_of_mem s ht)) callRun.2
    have hlength : partsRun.1.length = s.parts.length := by
      rw [← hparts, length_mapM]
    obtain ⟨hgiven, hsame⟩ := parts_withParts hlength
    have hself : s.transform f state = callRun := by
      rw [transform_eq, ← hcall, ← hparts]
      rfl
    rw [mapM_cons_apply, hself]
    refine ⟨inner ++ (s.withParts partsRun.1, callRun.1) :: later, ?_, ?_⟩
    · refine .cons ?_ hsame hlater
      rwa [hgiven]
    · rw [List.map_append, List.map_cons, mapM_append_apply, hruninner, mapM_cons_apply, hcall,
        hrunlater, List.map_append, List.map_cons]

/-- The calls that are made for a statement. -/
theorem exists_calls (s : Stmt ε) (state : σ) :
    ∃ calls, Rewriting [s] calls [(s.transform f state).1] ∧
      (calls.map Prod.fst).mapM f state = (calls.map Prod.snd, (s.transform f state).2) ∧
      calls.map (fun call => call.1.hollow) = s.statements.map hollow := by
  have hparts (s : Stmt ε) : ∀ state, ∃ calls,
      Rewriting s.parts calls (s.parts.mapM (transform f) state).1 ∧
        (calls.map Prod.fst).mapM f state =
          (calls.map Prod.snd, (s.parts.mapM (transform f) state).2) := by
    induction s using partInduct with
    | step s ih => exact exists_calls_of_parts f ih
  obtain ⟨calls, hcalls, hrun⟩ :=
    exists_calls_of_parts f (List.forall_mem_singleton.mpr (hparts s)) state
  refine ⟨calls, hcalls, hrun, ?_⟩
  rw [hcalls.hollow_calls, List.flatMap_singleton]

end Calls

end Stmt

/-! ## Programs -/

namespace Program

def exprs (p : Program ε) : List ε := p.statements.flatMap Stmt.exprs

/-- The expressions of a program are visited as those of a block. -/
theorem block_traverse (f : ε → StateM σ φ) (p : Program ε) (state : σ) :
    (Stmt.block p.statements).traverse f state =
      (.block (p.traverse f state).1.statements, (p.traverse f state).2) := by
  rw [Stmt.traverse, Stmt.traverseRoles, Stmt.traverseRolesList_eq_mapM]
  rfl

theorem traverse_apply (f : ε → StateM σ φ) (p : Program ε) (state : σ) :
    ((p.traverse f state).1.exprs, (p.traverse f state).2) = p.exprs.mapM f state := by
  have h := Stmt.traverse_apply f (.block p.statements) state
  rwa [block_traverse, Stmt.exprs_block, Stmt.exprs_block] at h

theorem skeleton_traverse (f : ε → StateM σ φ) (p : Program ε) (state : σ) :
    (p.traverse f state).1.skeleton = p.skeleton := by
  have h := Stmt.skeleton_traverse f (.block p.statements) state
  rw [block_traverse, Stmt.skeleton_block, Stmt.skeleton_block] at h
  exact congrArg Program.mk (Stmt.block.inj h)

theorem eq_iff_skeleton {p q : Program ε} :
    p = q ↔ p.skeleton = q.skeleton ∧ p.exprs = q.exprs := by
  obtain ⟨ss⟩ := p
  obtain ⟨ts⟩ := q
  have h := Stmt.eq_iff_skeleton (s := .block ss) (t := .block ts)
  rw [Stmt.skeleton_block, Stmt.skeleton_block, Stmt.exprs_block, Stmt.exprs_block,
    Stmt.block.injEq, Stmt.block.injEq] at h
  simp only [mk.injEq, skeleton, exprs]
  exact h

theorem map_map {ψ : Type} (f : ε → φ) (g : φ → ψ) (p : Program ε) :
    (p.map f).map g = p.map (g ∘ f) := by
  simp only [map, List.map_map]
  congr 1
  exact List.map_congr_left fun s _ => Stmt.mapRoles_mapRoles _ _ s

theorem traverse_pure (f : ε → φ) (p : Program ε) (state : σ) :
    p.traverse (fun e => (pure (f e) : StateM σ φ)) state = (p.map f, state) := by
  have h := Stmt.traverse_pure f (.block p.statements) state
  rw [block_traverse] at h
  obtain ⟨hblock, hstate⟩ := Prod.mk.inj h
  refine Prod.ext ?_ hstate
  rw [Stmt.map, Stmt.mapRoles_block] at hblock
  exact congrArg Program.mk (Stmt.block.inj hblock)

end Program

/-! ## The laws -/

structure Stmt.VisitsExprs (f : ε → StateM σ φ) (s : Stmt ε) : Prop where
  /-- The action runs once on each expression, in source order, and its results are the expressions
  of what is returned. -/
  runs : ∀ state, ((s.traverse f state).1.exprs, (s.traverse f state).2) = s.exprs.mapM f state
  /-- Everything else is as before. -/
  keeps : ∀ state, (s.traverse f state).1.skeleton = s.skeleton

structure Program.VisitsExprs (f : ε → StateM σ φ) (p : Program ε) : Prop where
  /-- The action runs once on each expression, in source order, and its results are the expressions
  of what is returned. -/
  runs : ∀ state, ((p.traverse f state).1.exprs, (p.traverse f state).2) = p.exprs.mapM f state
  /-- Everything else is as before. -/
  keeps : ∀ state, (p.traverse f state).1.skeleton = p.skeleton

/-- Visiting expressions runs the action down the list of them and replaces nothing else, which says
what is returned, since a statement is its skeleton and its expressions. So visits without effects
compose. Visiting statements runs the action down a list of calls, one for each statement from the
inside out, and each call is given its statement with what the earlier calls answered for its parts;
apart from its parts the statement is untouched. Programs are visited as statements are. -/
theorem traversals_lawful {ψ : Type} :
    (∀ (f : ε → StateM σ φ) (s : Stmt ε), s.VisitsExprs f) ∧
      (∀ s t : Stmt φ, s = t ↔ s.skeleton = t.skeleton ∧ s.exprs = t.exprs) ∧
      (∀ (f : ε → φ) (g : φ → ψ) (s : Stmt ε),
        (∀ state : σ, s.traverse (fun e => (pure (f e) : StateM σ φ)) state = (s.map f, state)) ∧
          (s.map f).map g = s.map (g ∘ f)) ∧
      (∀ (f : Stmt ε → StateM σ (Stmt ε)) (s : Stmt ε) (state : σ), ∃ calls,
        Stmt.Rewriting [s] calls [(s.transform f state).1] ∧
          (calls.map Prod.fst).mapM f state = (calls.map Prod.snd, (s.transform f state).2) ∧
          calls.map (fun call => call.1.hollow) = s.statements.map Stmt.hollow) ∧
      (∀ s t : Stmt ε, s = t ↔ s.hollow = t.hollow ∧ s.parts = t.parts) ∧
      (∀ (f : ε → StateM σ φ) (p : Program ε), p.VisitsExprs f) ∧
      (∀ p q : Program φ, p = q ↔ p.skeleton = q.skeleton ∧ p.exprs = q.exprs) ∧
      ∀ (f : ε → φ) (g : φ → ψ) (p : Program ε),
        (∀ state : σ, p.traverse (fun e => (pure (f e) : StateM σ φ)) state = (p.map f, state)) ∧
          (p.map f).map g = p.map (g ∘ f) := by
  refine ⟨?_, ?_, ?_, Stmt.exists_calls, ?_, ?_, ?_, ?_⟩
  · exact fun f s => ⟨Stmt.traverse_apply f s, Stmt.skeleton_traverse f s⟩
  · exact fun _ _ => Stmt.eq_iff_skeleton
  · exact fun f g s => ⟨Stmt.traverse_pure f s, Stmt.mapRoles_mapRoles _ _ s⟩
  · exact fun _ _ => Stmt.eq_iff_hollow
  · exact fun f p => ⟨Program.traverse_apply f p, Program.skeleton_traverse f p⟩
  · exact fun _ _ => Program.eq_iff_skeleton
  · exact fun f g p => ⟨Program.traverse_pure f p, Program.map_map f g p⟩

end ModelForm
