import ModelForm.Expr.Order
import ModelForm.Proofs.Mapping

/-!
# Equality of trees

Trees are compared by working off pairs of trees. Here this is unfolded at the root: two trees are
equal when their annotations and shells are and their children are equal pair by pair
(`Expr.beq_iff`). Recursion that does not look at annotations cannot tell equal trees apart
(`Expr.para_eq_of_beq`).

Equality often leaves something out, as that of annotations leaves out places in a source.
`EqualBy f` says that it is equality of what `f` takes from a value. This carries over from
annotations to trees (`EqualBy.mapNotes`) and from expressions to statements (`EqualBy.stmt`), and
what commutes with `f` gives equal results for equal values (`EqualBy.congr`).
-/

namespace ModelForm

/-- A node is determined by its shell and its children. -/
theorem Node.ext_of_shell {γ : Type} {m n : Node γ} (hshell : m.shell = n.shell)
    (hchildren : m.children = n.children) : m = n := by
  have hm := fill?_shell_children m []
  have hn := fill?_shell_children n []
  rw [hshell, hchildren, hn] at hm
  exact (Option.some.inj hm).symm

/-- Equally long lists have the same image exactly if they agree place by place after the map. -/
theorem map_eq_map_iff_zip {γ δ : Type} {f g : γ → δ} {as bs : List γ}
    (hlength : as.length = bs.length) :
    as.map f = bs.map g ↔ ∀ p ∈ as.zip bs, f p.1 = g p.2 := by
  induction as generalizing bs with
  | nil =>
    obtain rfl := List.eq_nil_of_length_eq_zero hlength.symm
    simp
  | cons a as ih =>
    cases bs with
    | nil => cases hlength
    | cons b bs =>
      rw [List.map_cons, List.map_cons, List.cons.injEq, ih (Nat.succ.inj hlength),
        List.zip_cons_cons, List.forall_mem_cons]

/-- Nodes of the same shell have equally many children. -/
theorem Node.length_children_of_shell {γ δ : Type} {m : Node γ} {n : Node δ}
    (h : m.shell = n.shell) : m.children.length = n.children.length := by
  rw [length_children, length_children, ← arity_shell m, h, arity_shell]

/-- After a map, nodes are equal if their shells are and if their children agree. -/
theorem Node.map_eq_map_iff {γ δ : Type} {f g : γ → δ} {m n : Node γ} :
    m.map f = n.map g ↔
      m.shell = n.shell ∧ ∀ p ∈ m.children.zip n.children, f p.1 = g p.2 := by
  constructor
  · intro h
    have hshell : m.shell = n.shell := by
      rw [← shell_map f m, h, shell_map]
    refine ⟨hshell, (map_eq_map_iff_zip (length_children_of_shell hshell)).mp ?_⟩
    rw [← children_map, h, children_map]
  · rintro ⟨hshell, hchildren⟩
    apply ext_of_shell
    · rw [shell_map, shell_map, hshell]
    · rw [children_map, children_map]
      exact (map_eq_map_iff_zip (length_children_of_shell hshell)).mpr hchildren

namespace Expr

variable {α : Type}

section Equal

variable [BEq α]

theorem allEqual_append (ps qs : List (Expr α × Expr α)) :
    allEqual (ps ++ qs) = (allEqual ps && allEqual qs) := by
  fun_induction allEqual ps with
  | case1 => rfl
  | case2 a b pending h ih =>
    rw [List.cons_append, allEqual, if_pos h, ← List.append_assoc, ih]
  | case3 a b pending h => rw [List.cons_append, allEqual, if_neg h, Bool.false_and]

theorem allEqual_cons (a b : Expr α) (ps : List (Expr α × Expr α)) :
    allEqual ((a, b) :: ps) = (a == b && allEqual ps) :=
  allEqual_append [(a, b)] ps

theorem allEqual_eq_all (ps : List (Expr α × Expr α)) :
    allEqual ps = ps.all fun p => p.1 == p.2 := by
  induction ps with
  | nil => rw [allEqual, List.all_nil]
  | cons p ps ih => rw [allEqual_cons, ih, List.all_cons]

/-- Equality of trees unfolds at the root. -/
theorem beq_iff {a b : Expr α} :
    a == b ↔ a.note == b.note ∧ a.node.shell = b.node.shell ∧
      ∀ p ∈ a.node.children.zip b.node.children, p.1 == p.2 := by
  show allEqual [(a, b)] = true ↔ _
  rw [allEqual, List.append_nil, allEqual_eq_all]
  simp [pairChildren, and_assoc]

end Equal

/-- Without the annotations, equal trees have the same result. -/
theorem para_eq_of_beq [BEq α] {R : Type} (f : Node R → R) {a b : Expr α} (h : a == b) :
    a.para (fun _ node => f node) = b.para fun _ node => f node := by
  induction a using induct generalizing b with
  | step a ih =>
    obtain ⟨-, hshell, hchildren⟩ := beq_iff.mp h
    rw [para_eq, para_eq]
    congr 1
    exact Node.map_eq_map_iff.mpr ⟨hshell, fun p hp =>
      ih p.1 (List.of_mem_zip hp).1 (hchildren p hp)⟩

end Expr

/-! ## Equality by a part -/

/-- Values compare as equal exactly if `f` takes the same from both. -/
def EqualBy {γ δ : Type} [BEq γ] (f : γ → δ) : Prop := ∀ a b : γ, a == b ↔ f a = f b

namespace EqualBy

variable {γ δ : Type} [BEq γ] {f : γ → δ}

theorem list (h : EqualBy f) : EqualBy (List.map f) := by
  intro as bs
  induction as generalizing bs with
  | nil => cases bs <;> simp
  | cons a as ih =>
    cases bs with
    | nil => simp
    | cons b bs => rw [List.cons_beq_cons, Bool.and_eq_true, h a b, ih bs, List.map_cons,
        List.map_cons, List.cons.injEq]

theorem option (h : EqualBy f) : EqualBy (Option.map f) := by
  intro a b
  cases a with
  | none => cases b <;> simp
  | some a =>
    cases b with
    | none => simp
    | some b =>
      rw [Option.some_beq_some, h a b, Option.map_some, Option.map_some, Option.some.injEq]

/-- What commutes with leaving something out cannot depend on what is left out. -/
theorem congr {φ : Type} [BEq φ] {f : γ → γ} {g : φ → φ} (hf : EqualBy f) (hg : EqualBy g)
    (F : γ → φ) (h : ∀ a, F (f a) = g (F a)) {a b : γ} (hab : a == b) : F a == F b := by
  rw [hg, ← h, ← h, (hf a b).mp hab]

/-- Trees are compared as their annotations are: what counts of the annotations is what counts of
the trees, and all else in a tree counts as it is. -/
theorem mapNotes (h : EqualBy f) : EqualBy (Expr.mapNotes f) := by
  intro a b
  induction a using Expr.induct generalizing b with
  | step a ih =>
    have hchildren : (∀ p ∈ a.node.children.zip b.node.children, p.1 == p.2) ↔
        ∀ p ∈ a.node.children.zip b.node.children, p.1.mapNotes f = p.2.mapNotes f :=
      forall₂_congr fun p hp => ih p.1 (List.of_mem_zip hp).1 p.2
    rw [Expr.beq_iff, h, hchildren, Expr.mapNotes_eq, Expr.mapNotes_eq, Expr.mk.injEq,
      Node.map_eq_map_iff]

end EqualBy

/-! ## Equality of statements -/

def Truncation.map {ε φ : Type} (f : ε → φ) (t : Truncation ε) : Truncation φ :=
  Id.run (t.traverse fun e => pure (f e))

theorem Truncation.same_iff {ε φ : Type} [BEq ε] {f : ε → φ} (h : EqualBy f) (t u : Truncation ε) :
    t.same u ↔ t.map f = u.map f := by
  cases t <;> cases u <;> simp [same, map, traverse, h _ _]

namespace Stmt

variable {ε φ : Type}

theorem ctorIdx_map (f : ε → φ) (s : Stmt ε) : (s.map f).ctorIdx = s.ctorIdx := by
  cases s with
  | ret value => cases value <;> rfl
  | _ => rfl

variable [BEq ε] {f : ε → φ}

theorem ctorIdx_of_same {s t : Stmt ε} (h : s.same t) : s.ctorIdx = t.ctorIdx := by
  revert h
  fun_cases same s t with
  | case16 => exact fun h => absurd h Bool.false_ne_true
  | _ => exact fun _ => rfl

/-- Only statements of the same form are to be compared. -/
theorem same_iff_of_ctorIdx {s t : Stmt ε}
    (h : s.ctorIdx = t.ctorIdx → (s.same t ↔ s.map f = t.map f)) :
    s.same t ↔ s.map f = t.map f := by
  by_cases hform : s.ctorIdx = t.ctorIdx
  · exact h hform
  · refine iff_of_false (fun hsame => hform (ctorIdx_of_same hsame)) fun hmap => hform ?_
    rw [← ctorIdx_map f s, hmap, ctorIdx_map]

theorem sameList_iff {ss : List (Stmt ε)} (h : ∀ s ∈ ss, ∀ t, s.same t ↔ s.map f = t.map f)
    (ts : List (Stmt ε)) : sameList ss ts ↔ ss.map (map f) = ts.map (map f) := by
  induction ss generalizing ts with
  | nil => cases ts <;> simp [sameList]
  | cons s ss ih =>
    cases ts with
    | nil => simp [sameList]
    | cons t ts =>
      rw [sameList, Bool.and_eq_true, h s List.mem_cons_self,
        ih fun s' hs => h s' (List.mem_cons_of_mem s hs), List.map_cons, List.map_cons,
        List.cons.injEq]

theorem sameOption_iff {s? : Option (Stmt ε)} (h : ∀ s ∈ s?, ∀ t, s.same t ↔ s.map f = t.map f)
    (t? : Option (Stmt ε)) : sameOption s? t? ↔ s?.map (map f) = t?.map (map f) := by
  cases s? with
  | none => cases t? <;> simp [sameOption]
  | some s =>
    cases t? with
    | none => simp [sameOption]
    | some t => rw [sameOption, h s rfl, Option.map_some, Option.map_some, Option.some.injEq]

end Stmt

/-- Statements are compared as their expressions are. -/
theorem EqualBy.stmt {ε φ : Type} [BEq ε] {f : ε → φ} (h : EqualBy f) : EqualBy (Stmt.map f) := by
  intro s t
  show s.same t ↔ _
  -- by the form of the left statement; the right one has the same form or neither side holds
  induction s using Stmt.induct generalizing t with
  | forLoop var lower upper body ih =>
    apply Stmt.same_iff_of_ctorIdx
    intro hform
    cases t with
    | forLoop var' lower' upper' body' =>
      simp only [Stmt.same, Stmt.map, Stmt.mapRoles_forLoop, Bool.and_eq_true, beq_iff_eq, h _ _,
        ih, Stmt.forLoop.injEq, and_assoc]
    | _ => cases hform
  | whileLoop test body ih =>
    apply Stmt.same_iff_of_ctorIdx
    intro hform
    cases t with
    | whileLoop test' body' =>
      simp only [Stmt.same, Stmt.map, Stmt.mapRoles_whileLoop, Bool.and_eq_true, h _ _, ih,
        Stmt.whileLoop.injEq]
    | _ => cases hform
  | branch test yes no ihyes ihno =>
    apply Stmt.same_iff_of_ctorIdx
    intro hform
    cases t with
    | branch test' yes' no' =>
      simp only [Stmt.same, Stmt.map, Stmt.mapRoles_branch, Bool.and_eq_true, h _ _, ihyes,
        Stmt.sameOption_iff ihno, Stmt.branch.injEq, and_assoc]
      rfl
    | _ => cases hform
  | block body ih =>
    apply Stmt.same_iff_of_ctorIdx
    intro hform
    cases t with
    | block body' =>
      simp only [Stmt.same, Stmt.map, Stmt.mapRoles_block, Stmt.block.injEq]
      exact Stmt.sameList_iff ih body'
    | _ => cases hform
  | other s hs =>
    apply Stmt.same_iff_of_ctorIdx
    intro hform
    cases s with
    | forLoop | whileLoop | branch | block => cases hs
    | tilde outcome distribution args truncation =>
      cases t with
      | tilde outcome' distribution' args' truncation' =>
        simp [Stmt.same, Stmt.map, Stmt.mapRoles, Stmt.traverseRoles, h _ _, h.list _ _,
          Truncation.same_iff h, Truncation.map, and_assoc]
      | _ => cases hform
    | ret value =>
      cases t with
      | ret value' =>
        simp only [Stmt.same, Stmt.map, Stmt.mapRoles_ret, h.option _ _, Stmt.ret.injEq]
      | _ => cases hform
    | _ =>
      cases t <;> cases hform
      simp [Stmt.same, Stmt.map, Stmt.mapRoles, Stmt.traverseRoles, h _ _, h.list _ _, and_assoc]

end ModelForm
