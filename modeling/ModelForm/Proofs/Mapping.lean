import ModelForm.Expr.Preorder
import ModelForm.Stmt
import ModelForm.Trace

/-!
# Mapping over nodes and statements

The passes are written with effects: they visit children and statements in an order and report what
they do. What they compute does not depend on the reports. This file takes the reports off.

* `Node.map_map`, `Node.map_congr`, `Node.map_id` — replacing children is functorial.
* `Expr.All` — a property of all nodes of a tree, which is one of the root and of the children.
* `Expr.fold_mapNotes` — when replacing annotations commutes with a fold.
* `Expr.value_foldTraced` — the value of a fold that reports is a plain fold.
* `Stmt.induct` — what holds of a statement whenever it holds of its inner statements holds of every
  statement.
* `Stmt.value_traverseRoles`, `Stmt.value_transform` — the same for the traversals of statements.
* `Stmt.mapRoles_mapRoles` — replacing the expressions of a statement twice is replacing them once.
-/

namespace ModelForm

/-! ## Nodes -/

section Functor

variable {γ δ ε : Type}

namespace Index

theorem map_map (f : γ → δ) (g : δ → ε) (i : Index γ) : (i.map f).map g = i.map (g ∘ f) := by
  cases i <;> rfl

theorem map_congr {f g : γ → δ} {i : Index γ} (h : ∀ c ∈ i.children, f c = g c) :
    i.map f = i.map g := by
  cases i <;> simp_all [map, children]

theorem map_id (i : Index γ) : i.map id = i := by
  cases i <;> rfl

end Index

namespace Node

theorem map_map (f : γ → δ) (g : δ → ε) (n : Node γ) : (n.map f).map g = n.map (g ∘ f) := by
  cases n with
  | indexed base indices =>
    simp only [map, List.map_map, Function.comp_apply]
    congr 1
    exact List.map_congr_left fun i _ => Index.map_map f g i
  | _ => simp [map]

/-- Only what a function does on the children matters to a map. -/
theorem map_congr {f g : γ → δ} {n : Node γ} (h : ∀ c ∈ n.children, f c = g c) :
    n.map f = n.map g := by
  cases n with
  | call kind name args => exact congrArg (Node.call kind name) (List.map_congr_left h)
  | indexed base indices =>
    have hbase : f base = g base := h base List.mem_cons_self
    have hindices : indices.map (Index.map f) = indices.map (Index.map g) :=
      List.map_congr_left fun i hi => Index.map_congr fun c hc =>
        h c (List.mem_cons_of_mem base (List.mem_flatMap_of_mem hi hc))
    simp only [map, hbase, hindices]
  | _ => simp_all [map, children]

theorem map_id (n : Node γ) : n.map id = n := by
  cases n with
  | indexed base indices =>
    have h : (Index.map id : Index γ → Index γ) = id := funext Index.map_id
    simp [map, h]
  | _ => simp [map]

/-- A map that keeps every child keeps the node. -/
theorem map_eq_self {f : γ → γ} {n : Node γ} (h : ∀ c ∈ n.children, f c = c) : n.map f = n :=
  (map_congr h).trans (map_id n)

@[simp] theorem shell_map (f : γ → δ) (n : Node γ) : (n.map f).shell = n.shell := map_map f _ n

/-- Being written with operators is a matter of the shell alone. -/
@[simp] theorem isOperatorLike_map (f : γ → δ) (n : Node γ) :
    (n.map f).isOperatorLike = n.isOperatorLike := by
  cases n with
  | call kind name args => cases kind <;> rfl
  | _ => rfl

end Node

end Functor

/-- The nodes of a tree are the tree itself and the nodes of its children. -/
theorem Expr.mem_nodes {α : Type} {s e : Expr α} :
    s ∈ e.nodes ↔ s = e ∨ ∃ c ∈ e.node.children, s ∈ c.nodes := by
  rw [nodes_eq e, List.mem_cons, List.mem_flatMap]

theorem Expr.self_mem_nodes {α : Type} (e : Expr α) : e ∈ e.nodes := mem_nodes.mpr (Or.inl rfl)

/-! ## Properties of all nodes -/

namespace Expr

variable {α : Type}

theorem mem_nodes_of_child {c e : Expr α} (h : c ∈ e.node.children) : c ∈ e.nodes :=
  mem_nodes.mpr (Or.inr ⟨c, h, self_mem_nodes c⟩)

theorem mem_nodes_trans {s t e : Expr α} (hs : s ∈ t.nodes) (ht : t ∈ e.nodes) : s ∈ e.nodes := by
  induction e using induct with
  | step e ih =>
    rcases mem_nodes.mp ht with rfl | ⟨c, hc, htc⟩
    · exact hs
    · exact mem_nodes.mpr (Or.inr ⟨c, hc, ih c hc htc⟩)

def All (Q : Expr α → Prop) (e : Expr α) : Prop := ∀ s ∈ e.nodes, Q s

theorem all_iff {Q : Expr α → Prop} {e : Expr α} :
    e.All Q ↔ Q e ∧ ∀ c ∈ e.node.children, c.All Q := by
  constructor
  · intro h
    exact ⟨h e e.self_mem_nodes, fun c hc s hs => h s (mem_nodes.mpr (Or.inr ⟨c, hc, hs⟩))⟩
  · rintro ⟨hroot, hchildren⟩ s hs
    rcases mem_nodes.mp hs with rfl | ⟨c, hc, hs⟩
    · exact hroot
    · exact hchildren c hc s hs

theorem All.inner {Q : Expr α → Prop} {s e : Expr α} (h : e.All Q) (hs : s ∈ e.nodes) : s.All Q :=
  fun t ht => h t (mem_nodes_trans ht hs)

end Expr

/-! ## Annotations -/

namespace Expr

variable {α β R S : Type}

theorem mapNotes_eq (f : α → β) (e : Expr α) :
    e.mapNotes f = ⟨f e.note, e.node.map (mapNotes f)⟩ := by
  rw [mapNotes, fold_eq]
  rfl

@[simp] theorem mapNotes_mk (f : α → β) (note : α) (node : Node (Expr α)) :
    mapNotes f ⟨note, node⟩ = ⟨f note, node.map (mapNotes f)⟩ := mapNotes_eq f ⟨note, node⟩

@[simp] theorem note_mapNotes (f : α → β) (e : Expr α) : (e.mapNotes f).note = f e.note := by
  rw [mapNotes_eq]

@[simp] theorem node_mapNotes (f : α → β) (e : Expr α) :
    (e.mapNotes f).node = e.node.map (mapNotes f) := by
  rw [mapNotes_eq]

/-- A fold commutes with replacing annotations as soon as its step does. -/
theorem fold_mapNotes {f : α → β} {g : R → S} {step : α → Node R → R} {step' : β → Node S → S}
    (h : ∀ note results, g (step note results) = step' (f note) (results.map g)) (e : Expr α) :
    (e.mapNotes f).fold step' = g (e.fold step) := by
  induction e using induct with
  | step e ih =>
    rw [fold_eq, fold_eq, h, note_mapNotes, node_mapNotes, Node.map_map, Node.map_map]
    congr 1
    exact Node.map_congr ih

theorem mapNotes_mapNotes {γ : Type} (f : α → β) (g : β → γ) (e : Expr α) :
    (e.mapNotes f).mapNotes g = e.mapNotes (g ∘ f) := by
  induction e using induct with
  | step e ih =>
    rw [mapNotes_eq g, mapNotes_eq (g ∘ f), note_mapNotes, node_mapNotes, Node.map_map]
    congr 1
    exact Node.map_congr ih

end Expr

/-! ## Values of traced actions -/

namespace Traced

variable {β γ δ : Type}

@[simp] theorem value_pure (b : β) : (pure b : Traced β).value = b := rfl

@[simp] theorem value_bind (x : Traced β) (f : β → Traced γ) :
    (x >>= f).value = (f x.value).value := rfl

@[simp] theorem value_map (f : β → γ) (x : Traced β) : (f <$> x).value = f x.value := rfl

@[simp] theorem value_mapM (f : γ → Traced δ) (cs : List γ) :
    (cs.mapM f).value = cs.map fun c => (f c).value := by
  induction cs with
  | nil => rfl
  | cons c cs ih =>
    rw [List.mapM_cons]
    exact congrArg (List.cons (f c).value) ih

end Traced

/-- Taking the reports off a traversal of a node leaves a map. -/
theorem Node.value_traverse {γ δ : Type} (f : γ → Traced δ) (n : Node γ) :
    (n.traverse f).value = n.map fun c => (f c).value := by
  rw [traverse_hom (m := Traced) (k := Id) Traced.value (fun _ => rfl) (fun _ _ => rfl) f n]
  exact traverse_pure (m := Id) _ n

/-- The value of a fold that reports is the fold of the values. -/
theorem Expr.value_foldTraced {α R : Type} (step : α → Node R → Traced R) (e : Expr α) :
    (e.foldTraced step).value = e.fold fun note results => (step note results).value := by
  induction e using Expr.induct with
  | step e ih =>
    rw [foldTraced_eq, fold_eq, Traced.value_bind, Node.value_traverse, Node.map_congr ih]

/-! ## Statements -/

theorem Truncation.value_traverse {ε φ : Type} (f : ε → Traced φ) (t : Truncation ε) :
    (t.traverse f).value = Id.run (t.traverse fun e => pure (f e).value) := by
  cases t <;> rfl

namespace Stmt

variable {ε φ ψ : Type}

/-- Whether the statement has statements inside. -/
def isCompound : Stmt ε → Bool
  | .forLoop .. | .whileLoop .. | .branch .. | .block _ => true
  | _                                                   => false

/-- Induction that sets the forms with inner statements apart from all others. -/
theorem induct {motive : Stmt ε → Prop}
    (forLoop : ∀ var lower upper body, motive body → motive (.forLoop var lower upper body))
    (whileLoop : ∀ test body, motive body → motive (.whileLoop test body))
    (branch : ∀ test yes no, motive yes → (∀ s ∈ no, motive s) → motive (.branch test yes no))
    (block : ∀ body, (∀ s ∈ body, motive s) → motive (.block body))
    (other : ∀ s, s.isCompound = false → motive s) (s : Stmt ε) : motive s := by
  cases s with
  | forLoop var lower upper body =>
    exact forLoop var lower upper body (induct forLoop whileLoop branch block other body)
  | whileLoop test body =>
    exact whileLoop test body (induct forLoop whileLoop branch block other body)
  | branch test yes no =>
    exact branch test yes no (induct forLoop whileLoop branch block other yes)
      fun s _ => induct forLoop whileLoop branch block other s
  | block body => exact block body fun s _ => induct forLoop whileLoop branch block other s
  | _ => exact other _ rfl
termination_by sizeOf s

/-! ### Expressions of a statement -/

section MapRoles

variable (f : Role → ε → φ)

@[simp] theorem mapRoles_forLoop (var : String) (lower upper : ε) (body : Stmt ε) :
    (forLoop var lower upper body).mapRoles f =
      forLoop var (f .loopBound lower) (f .loopBound upper) (body.mapRoles f) := rfl

@[simp] theorem mapRoles_whileLoop (test : ε) (body : Stmt ε) :
    (whileLoop test body).mapRoles f = whileLoop (f .other test) (body.mapRoles f) := rfl

@[simp] theorem mapRoles_branch (test : ε) (yes : Stmt ε) (no : Option (Stmt ε)) :
    (branch test yes no).mapRoles f =
      branch (f .other test) (yes.mapRoles f) (no.map (mapRoles f)) := by
  cases no <;> rfl

theorem run_traverseRolesList (ss : List (Stmt ε)) :
    Id.run (traverseRolesList (fun role e => pure (f role e)) ss) = ss.map (mapRoles f) := by
  induction ss with
  | nil => rfl
  | cons s ss ih => exact congrArg (List.cons (s.mapRoles f)) ih

@[simp] theorem mapRoles_block (body : List (Stmt ε)) :
    (block body).mapRoles f = block (body.map (mapRoles f)) :=
  congrArg block (run_traverseRolesList f body)

@[simp] theorem mapRoles_ret (value : Option ε) :
    (ret value).mapRoles f = ret (value.map (f .other)) := by
  cases value <;> rfl

end MapRoles

theorem value_traverseRolesList {f : Role → ε → Traced φ} {ss : List (Stmt ε)}
    (h : ∀ s ∈ ss, (s.traverseRoles f).value = s.mapRoles fun role e => (f role e).value) :
    (traverseRolesList f ss).value = ss.map (mapRoles fun role e => (f role e).value) := by
  induction ss with
  | nil => rfl
  | cons s ss ih =>
    have hs := h s List.mem_cons_self
    have hss := ih fun t ht => h t (List.mem_cons_of_mem s ht)
    exact congr (congrArg List.cons hs) hss

/-- Taking the reports off a traversal of a statement leaves a map. -/
theorem value_traverseRoles (f : Role → ε → Traced φ) (s : Stmt ε) :
    (s.traverseRoles f).value = s.mapRoles fun role e => (f role e).value := by
  induction s using induct with
  | forLoop var lower upper body ih =>
    rw [mapRoles_forLoop, ← ih]
    rfl
  | whileLoop test body ih =>
    rw [mapRoles_whileLoop, ← ih]
    rfl
  | branch test yes no ihyes ihno =>
    rw [mapRoles_branch, ← ihyes]
    cases no with
    | none => rfl
    | some no =>
      rw [Option.map_some, ← ihno no rfl]
      rfl
  | block body ih =>
    rw [mapRoles_block, ← value_traverseRolesList ih]
    rfl
  | other s h =>
    cases s with
    | forLoop | whileLoop | branch | block => cases h
    | tilde outcome distribution args truncation =>
      simp [mapRoles, traverseRoles, Truncation.value_traverse]
    | ret value => cases value <;> rfl
    | _ => simp [mapRoles, traverseRoles]

/-- Replacing the expressions twice is replacing them once. -/
theorem mapRoles_mapRoles (f : Role → ε → φ) (g : Role → φ → ψ) (s : Stmt ε) :
    (s.mapRoles f).mapRoles g = s.mapRoles fun role e => g role (f role e) := by
  induction s using induct with
  | forLoop var lower upper body ih => simp only [mapRoles_forLoop, ih]
  | whileLoop test body ih => simp only [mapRoles_whileLoop, ih]
  | branch test yes no ihyes ihno =>
    simp only [mapRoles_branch, ihyes, Option.map_map]
    congr 1
    exact Option.map_congr ihno
  | block body ih =>
    simp only [mapRoles_block, List.map_map]
    congr 1
    exact List.map_congr_left ih
  | other s h =>
    cases s with
    | forLoop | whileLoop | branch | block => cases h
    | tilde outcome distribution args truncation =>
      cases truncation <;> simp [mapRoles, traverseRoles, Truncation.traverse]
    | ret value => cases value <;> rfl
    | _ => simp [mapRoles, traverseRoles]

/-! ### Statements of a statement -/

/-- The statement with each statement in it replaced, the inner ones first. -/
def rewrite (f : Stmt ε → Stmt ε) (s : Stmt ε) : Stmt ε := Id.run (s.transform fun t => pure (f t))

section Rewrite

variable (f : Stmt ε → Stmt ε)

@[simp] theorem rewrite_branch (test : ε) (yes : Stmt ε) (no : Option (Stmt ε)) :
    (branch test yes no).rewrite f = f (branch test (yes.rewrite f) (no.map (rewrite f))) := by
  cases no <;> rfl

theorem run_transformList (ss : List (Stmt ε)) :
    Id.run (transformList (fun t => pure (f t)) ss) = ss.map (rewrite f) := by
  induction ss with
  | nil => rfl
  | cons s ss ih => exact congrArg (List.cons (s.rewrite f)) ih

@[simp] theorem rewrite_block (body : List (Stmt ε)) :
    (block body).rewrite f = f (block (body.map (rewrite f))) :=
  congrArg (fun ss => f (block ss)) (run_transformList f body)

end Rewrite

theorem value_transformList {f : Stmt ε → Traced (Stmt ε)} {ss : List (Stmt ε)}
    (h : ∀ s ∈ ss, (s.transform f).value = s.rewrite fun t => (f t).value) :
    (transformList f ss).value = ss.map (rewrite fun t => (f t).value) := by
  induction ss with
  | nil => rfl
  | cons s ss ih =>
    have hs := h s List.mem_cons_self
    have hss := ih fun t ht => h t (List.mem_cons_of_mem s ht)
    exact congr (congrArg List.cons hs) hss

/-- Taking the reports off a transformation of a statement leaves a rewriting. -/
theorem value_transform (f : Stmt ε → Traced (Stmt ε)) (s : Stmt ε) :
    (s.transform f).value = s.rewrite fun t => (f t).value := by
  induction s using induct with
  | forLoop var lower upper body ih =>
    show (f (forLoop var lower upper (body.transform f).value)).value = _
    rw [ih]
    rfl
  | whileLoop test body ih =>
    show (f (whileLoop test (body.transform f).value)).value = _
    rw [ih]
    rfl
  | branch test yes no ihyes ihno =>
    have hno : (transformOption f no).value = no.map (rewrite fun t => (f t).value) := by
      cases no with
      | none => rfl
      | some no => exact congrArg some (ihno no rfl)
    show (f (branch test (yes.transform f).value (transformOption f no).value)).value = _
    rw [ihyes, hno, rewrite_branch]
  | block body ih =>
    show (f (block (transformList f body).value)).value = _
    rw [value_transformList ih, rewrite_block]
  | other s h =>
    cases s with
    | forLoop | whileLoop | branch | block => cases h
    | _ => rfl

end Stmt

end ModelForm
