import Mathlib.Logic.Relation
import ModelForm.Proofs.Equality
import ModelForm.Proofs.Placement
import ModelForm.Proofs.WorkList

/-!
# Redundant groups

A group is redundant if what it holds is not written with operators, or if it stands where nothing
needs a group: around a whole expression, an argument or a bound of an index. `GroupAdded` is one
such group more, at one position of a tree. Trees are the same up to redundant groups (`Regrouped`)
if steps of this kind lead from one to the other, in either direction.

Normalization decides this relation (`Expr.normalizeGroups_eq_iff`).

* A redundant group makes no difference to what a tree is normalized to (`GroupAdded.agree`). The
  places above the group decide whether it is dropped or merged with another one; `Grouped.Agree`
  is what has to be carried up through them.
* Every tree can be taken to its normal form by redundant groups alone (`Expr.regrouped_placed`),
  since a step at a child is a step at its parent (`Regrouped.child`).
-/

namespace ModelForm

/-! ## One redundant group -/

namespace Node

variable {γ : Type}

/-- Whether any group around the child at the given position is redundant: it is an argument of a
call that is not written with operators, or a bound of an index. -/
def needsNoGroup (n : Node γ) (i : Nat) : Bool :=
  match n with
  | .call kind name args => !(call kind name args).isOperatorLike
  | .indexed _ _         => i != 0
  | _                    => false

theorem needsNoGroup_shell (n : Node γ) (i : Nat) : n.shell.needsNoGroup i = n.needsNoGroup i := by
  cases n with
  | call kind name args =>
    exact congrArg (!·) (isOperatorLike_map (fun _ => ()) (.call kind name args))
  | _ => rfl

theorem needsNoGroup_of_shell {m n : Node γ} (h : m.shell = n.shell) (i : Nat) :
    m.needsNoGroup i = n.needsNoGroup i := by
  rw [← needsNoGroup_shell m, h, needsNoGroup_shell]

theorem groupMatters_of_shell {m n : Node γ} (h : m.shell = n.shell) (i : Nat) :
    m.groupMatters i = n.groupMatters i := by
  rw [← groupMatters_mapPlaces (fun _ _ => ()) m i, ← groupMatters_mapPlaces (fun _ _ => ()) n i,
    mapPlaces_const, mapPlaces_const]
  exact congrArg (groupMatters · i) h

/-- Below a node that is not a group itself, a group matters or it is not needed. -/
theorem needsNoGroup_eq_not {n : Node γ} {c : γ} (hgroup : n.isGroup = false)
    (hc : c ∈ n.children) (i : Nat) : n.needsNoGroup i = !n.groupMatters i := by
  cases n with
  | var | literal => cases hc
  | paren inner => cases hgroup
  | _ => rfl

theorem isGroup_of_isOperatorLike {n : Node γ} (h : n.isOperatorLike = true) :
    n.isGroup = false := by
  cases n with
  | paren inner => cases h
  | _ => rfl

/-- A child can be replaced by anything. -/
theorem exists_replaced {n : Node γ} {before after : List γ} {c : γ}
    (hn : n.children = before ++ c :: after) (d : γ) :
    ∃ m : Node γ, m.shell = n.shell ∧ m.children = before ++ d :: after := by
  apply exists_of_children
  rw [arity_shell, ← length_children, hn, List.length_append, List.length_append]
  rfl

end Node

/-- The second tree is the first with one redundant group added, somewhere in it. The first argument
says whether the tree itself stands where it needs no group. -/
inductive GroupAdded {α : Type} : Bool → Expr α → Expr α → Prop where
  /-- Around the tree, which needs no group or is not written with operators. -/
  | around {free : Bool} (note : α) (e : Expr α)
      (h : free = true ∨ e.node.isOperatorLike = false) : GroupAdded free e ⟨note, .paren e⟩
  /-- In a child of the tree. All else stays. -/
  | child {free : Bool} (note : α) {n m : Node (Expr α)} {before after : List (Expr α)}
      {c d : Expr α} (hshell : m.shell = n.shell) (hn : n.children = before ++ c :: after)
      (hm : m.children = before ++ d :: after)
      (h : GroupAdded (n.needsNoGroup before.length) c d) : GroupAdded free ⟨note, n⟩ ⟨note, m⟩

/-- The least equivalence between trees of which one is the other with a redundant group added. -/
def Regrouped {α : Type} (free : Bool) : Expr α → Expr α → Prop := Relation.EqvGen (GroupAdded free)

/-! ## A redundant group makes no difference -/

namespace Grouped

variable {α : Type}

/-- Nothing tells the two apart, where a group is kept or where it is not. -/
def Agree (keep : Bool) (g h : Grouped α) : Prop :=
  g.bare = h.bare ∧ (keep = true → g.bare.node.isOperatorLike = true → g.group = h.group)

theorem placed_of_not_group {e : Expr α} (h : e.node.isGroup = false) (keep : Bool) :
    (ofExpr e).placed keep = (ofExpr e).bare := by
  apply placed_of_none
  rw [groupIn?, Expr.groups_of_not_group h, List.getLast?_nil, ite_self]

theorem kept_of_not_operatorLike {g : Grouped α} (h : g.bare.node.isOperatorLike = false) :
    g.kept = g.bare := by
  unfold kept
  split
  · rw [h]
    rfl
  · rfl

theorem Agree.placed_eq {keep : Bool} {g h : Grouped α} (hagree : Agree keep g h) :
    g.placed keep = h.placed keep := by
  obtain ⟨hbare, hgroup⟩ := hagree
  cases keep with
  | false => exact hbare
  | true =>
    show g.kept = h.kept
    cases hop : g.bare.node.isOperatorLike with
    | false =>
      rw [kept_of_not_operatorLike hop, hbare, kept_of_not_operatorLike]
      rwa [← hbare]
    | true =>
      rw [kept, kept, hgroup rfl hop, hbare]

/-- A group around what is not written with operators goes unnoticed everywhere, and any group does
where none is kept. -/
theorem agree_paren {keep : Bool} (note : α) {e : Expr α}
    (h : keep = false ∨ e.node.isOperatorLike = false) :
    Agree keep (ofExpr e) (ofExpr ⟨note, .paren e⟩) := by
  rw [ofExpr_paren]
  refine ⟨rfl, ?_⟩
  rintro rfl hop
  rcases h with h | h
  · cases h
  · obtain ⟨outer, node⟩ := e
    cases node with
    | paren inner =>
      -- the group of `e` is further in, and so it is the one that is remembered
      rw [ofExpr_paren]
      rfl
    | _ =>
      rw [isOperatorLike_bare, Expr.core_of_not_group rfl, h] at hop
      cases hop

/-- Groups around what agrees agree. -/
theorem Agree.paren {keep : Bool} (note : α) {c d : Expr α}
    (h : Agree true (ofExpr c) (ofExpr d)) :
    Agree keep (ofExpr ⟨note, .paren c⟩) (ofExpr ⟨note, .paren d⟩) := by
  rw [ofExpr_paren, ofExpr_paren]
  refine ⟨h.1, ?_⟩
  intro _ hop
  rw [h.2 rfl hop]

/-- Nodes that are not groups agree if the children do where they differ. -/
theorem Agree.node {keep : Bool} (note : α) {n m : Node (Expr α)} {before after : List (Expr α)}
    {c d : Expr α} (hgroup : n.isGroup = false) (hshell : m.shell = n.shell)
    (hn : n.children = before ++ c :: after) (hm : m.children = before ++ d :: after)
    (h : Agree (n.groupMatters before.length) (ofExpr c) (ofExpr d)) :
    Agree keep (ofExpr ⟨note, n⟩) (ofExpr ⟨note, m⟩) := by
  have hmgroup : m.isGroup = false := by
    rw [← Node.isGroup_map (fun _ => ()), ← hgroup, ← Node.isGroup_map (fun _ => ()) n]
    exact congrArg Node.isGroup hshell
  have hnodes : (n.mapPlaces fun keep c => (ofExpr c).placed keep) =
      m.mapPlaces fun keep c => (ofExpr c).placed keep := by
    apply Node.ext_of_shell
    · rw [Node.shell_mapPlaces, Node.shell_mapPlaces, hshell]
    · apply List.ext_getElem?
      intro i
      rw [Node.children_mapPlaces, Node.children_mapPlaces, hn, hm,
        Node.groupMatters_of_shell hshell]
      by_cases hi : i = before.length
      · rw [hi, List.getElem?_append_right (Nat.le_refl _),
          List.getElem?_append_right (Nat.le_refl _), Nat.sub_self]
        exact congrArg some h.placed_eq
      · have hsame : (before ++ c :: after)[i]? = (before ++ d :: after)[i]? := by grind
        rw [hsame]
  rw [ofExpr_of_not_group (e := ⟨note, n⟩) hgroup, ofExpr_of_not_group (e := ⟨note, m⟩) hmgroup]
  exact ⟨congrArg (Expr.mk note) hnodes, fun _ _ => rfl⟩

end Grouped

/-- A redundant group makes no difference to normalization where a group is redundant. -/
theorem GroupAdded.agree {α : Type} {free : Bool} {a b : Expr α} (h : GroupAdded free a b) :
    Grouped.Agree (!free) (Grouped.ofExpr a) (Grouped.ofExpr b) := by
  induction h with
  | around note e h => exact Grouped.agree_paren note (by simpa using h)
  | @child free note n m before after c d hshell hn hm _ ih =>
    cases hgroup : n.isGroup with
    | false =>
      have hc : c ∈ n.children := by simp [hn]
      rw [Node.needsNoGroup_eq_not hgroup hc, Bool.not_not] at ih
      exact Grouped.Agree.node note hgroup hshell hn hm ih
    | true =>
      -- both nodes are groups, of `c` and of `d`
      cases n with
      | paren inner =>
        obtain ⟨rfl, rfl, rfl⟩ : before = [] ∧ inner = c ∧ after = [] := by
          cases before <;> simp_all [Node.children]
        obtain rfl : m = .paren d := Node.ext_of_shell hshell hm
        exact ih.paren note
      | _ => cases hgroup

/-! ## Redundant groups lead to the normal form -/

namespace Regrouped

variable {α : Type} {free : Bool} (note : α) {n m : Node (Expr α)}

/-- Steps in a child are steps in the tree. -/
theorem child (before after : List (Expr α)) {c d : Expr α} (hshell : m.shell = n.shell)
    (hn : n.children = before ++ c :: after) (hm : m.children = before ++ d :: after)
    (h : Regrouped (n.needsNoGroup before.length) c d) :
    Regrouped free ⟨note, n⟩ ⟨note, m⟩ := by
  generalize hplace : n.needsNoGroup before.length = place at h
  induction h generalizing n m with
  | rel c d h =>
    rw [← hplace] at h
    exact .rel _ _ (.child note hshell hn hm h)
  | refl c =>
    rw [Node.ext_of_shell hshell (hm.trans hn.symm)]
    exact .refl _
  | symm c d _ ih =>
    rw [← Node.needsNoGroup_of_shell hshell] at hplace
    exact .symm _ _ (ih hshell.symm hm hn hplace)
  | trans c x d _ _ ihc ihd =>
    obtain ⟨k, hkshell, hk⟩ := Node.exists_replaced hn x
    have hfirst : Regrouped free ⟨note, n⟩ ⟨note, k⟩ := ihc hkshell hn hk hplace
    have hsecond : Regrouped free ⟨note, k⟩ ⟨note, m⟩ := by
      apply ihd (hshell.trans hkshell.symm) hk hm
      rw [Node.needsNoGroup_of_shell hkshell, hplace]
    exact .trans _ _ _ hfirst hsecond

/-- Steps in all children are steps in the tree. The children in `done` have been dealt with. -/
theorem children (done : List (Expr α)) {cs ds : List (Expr α)} (hshell : m.shell = n.shell)
    (hlength : cs.length = ds.length) (hn : n.children = done ++ cs) (hm : m.children = done ++ ds)
    (h : ∀ i c d, cs[i]? = some c → ds[i]? = some d →
      Regrouped (n.needsNoGroup (done.length + i)) c d) :
    Regrouped free ⟨note, n⟩ ⟨note, m⟩ := by
  induction cs generalizing n done ds with
  | nil =>
    obtain rfl : ds = [] := List.eq_nil_of_length_eq_zero hlength.symm
    rw [Node.ext_of_shell hshell (hm.trans hn.symm)]
    exact .refl _
  | cons c cs ih =>
    cases ds with
    | nil => cases hlength
    | cons d ds =>
      obtain ⟨k, hkshell, hk⟩ := Node.exists_replaced hn d
      have hfirst : Regrouped free ⟨note, n⟩ ⟨note, k⟩ :=
        child note done cs hkshell hn hk (h 0 c d rfl rfl)
      have hrest : Regrouped free ⟨note, k⟩ ⟨note, m⟩ := by
        rw [List.append_cons] at hk hm
        refine ih (done ++ [d]) (hshell.trans hkshell.symm) (Nat.succ.inj hlength) hk hm ?_
        intro i x y hx hy
        rw [Node.needsNoGroup_of_shell hkshell, List.length_append, List.length_singleton,
          Nat.add_assoc, Nat.add_comm 1 i]
        exact h (i + 1) x y hx hy
      exact .trans _ _ _ hfirst hrest

end Regrouped

namespace Expr

variable {α : Type}

/-- Every tree is normalized for its place by redundant groups alone. -/
theorem regrouped_placed (e : Expr α) (free : Bool) :
    Regrouped free e ((Grouped.ofExpr e).placed (!free)) := by
  induction e using groupInduct generalizing free with
  | paren note inner ih =>
    have hgroup : (free = true ∨ inner.node.isOperatorLike = false) ∨
        free = false ∧ inner.node.isOperatorLike = true := by
      cases free <;> cases inner.node.isOperatorLike <;> simp
    rcases hgroup with hredundant | ⟨rfl, hop⟩
    · -- the group is redundant itself
      have hadded : GroupAdded free inner ⟨note, .paren inner⟩ := .around note inner hredundant
      rw [← hadded.agree.placed_eq]
      exact .trans _ _ _ (.symm _ _ (.rel _ _ hadded)) (ih free)
    · -- the group is kept, and what it holds is normalized in it
      have hinner := Node.isGroup_of_isOperatorLike hop
      have hplaced : (Grouped.ofExpr ⟨note, .paren inner⟩).placed true =
          ⟨note, .paren ((Grouped.ofExpr inner).placed true)⟩ := by
        rw [Grouped.placed_of_not_group hinner, Grouped.ofExpr_paren,
          Grouped.ofExpr_of_not_group hinner]
        simp [Grouped.placed, Grouped.kept, hop]
      rw [Bool.not_false, hplaced]
      exact Regrouped.child note [] [] rfl rfl rfl (ih false)
  | other e h ih =>
    obtain ⟨note, n⟩ := e
    rw [Grouped.placed_of_not_group h, Grouped.ofExpr_of_not_group h]
    have hshell := Node.shell_mapPlaces (fun keep c => (Grouped.ofExpr c).placed keep) n
    have hlength := Node.length_children_of_shell hshell.symm
    refine Regrouped.children note [] hshell hlength rfl rfl ?_
    intro i c d hc hd
    have hmem : c ∈ n.children := List.mem_of_getElem? hc
    rw [Node.children_mapPlaces, hc, Option.map_some] at hd
    obtain rfl := Option.some.inj hd
    have hchild := ih c hmem (n.needsNoGroup i)
    rw [Node.needsNoGroup_eq_not h hmem, Bool.not_not] at hchild
    rwa [List.length_nil, Nat.zero_add, Node.needsNoGroup_eq_not h hmem]

/-- Trees have the same normal form exactly if they are the same up to redundant groups. -/
theorem normalizeGroups_eq_iff (a b : Expr α) :
    a.normalizeGroups = b.normalizeGroups ↔ Regrouped true a b := by
  constructor
  · intro h
    have ha : Regrouped true a a.normalizeGroups := regrouped_placed a true
    have hb : Regrouped true b b.normalizeGroups := regrouped_placed b true
    rw [h] at ha
    exact .trans _ _ _ ha (.symm _ _ hb)
  · intro h
    induction h with
    | rel a b h => exact h.agree.1
    | refl a => rfl
    | symm a b _ ih => exact ih.symm
    | trans a b c _ _ ihab ihbc => exact ihab.trans ihbc

end Expr

end ModelForm
