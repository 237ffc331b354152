import ModelForm.Proofs.Groups

/-!
# Where groups stand after normalization

Groups come and go, all other nodes stay. So a node that is not a group has an *address*: the
positions of the children that lead to it, with groups passed by on the way (`Expr.at?`). What
stands at an address is a tree in some groups: `Expr.core` is the tree and `Expr.groups` lists the
annotations of the groups, the outermost first.

`PlacedGroups e t` says what it is for the groups of `t` to be the ones of `e` that matter, and
`normalizeGroups_placed` that normalization achieves it.
-/

namespace ModelForm

namespace Expr

variable {α : Type}

/-! ## Addresses -/

/-- What is left of a tree once the groups directly around it are taken away. -/
def core : Expr α → Expr α :=
  para fun e cores =>
    match cores with
    | .paren core => core
    | _           => e

/-- The annotations of the groups directly around a tree, the outermost first. -/
def groups : Expr α → List α :=
  para fun e results =>
    match results with
    | .paren inner => e.note :: inner
    | _            => []

/-- The tree at an address, with the groups directly around it. -/
def at? (e : Expr α) : List Nat → Option (Expr α)
  | []        => some e
  | i :: path => e.core.node.children[i]?.bind fun c => c.at? path

@[simp] theorem core_paren (note : α) (inner : Expr α) :
    core ⟨note, .paren inner⟩ = inner.core := by
  rw [core, para_eq]
  rfl

theorem core_of_not_group {e : Expr α} (h : e.node.isGroup = false) : e.core = e := by
  rw [core, para_eq]
  obtain ⟨note, node⟩ := e
  cases node with
  | paren inner => cases h
  | _ => rfl

@[simp] theorem groups_paren (note : α) (inner : Expr α) :
    groups ⟨note, .paren inner⟩ = note :: inner.groups := by
  rw [groups, para_eq]
  rfl

theorem groups_of_not_group {e : Expr α} (h : e.node.isGroup = false) : e.groups = [] := by
  rw [groups, para_eq]
  obtain ⟨note, node⟩ := e
  cases node with
  | paren inner => cases h
  | _ => rfl

/-- The last step of an address goes to a child of what stands at the rest of it. -/
theorem at?_concat (e : Expr α) (path : List Nat) (i : Nat) :
    e.at? (path ++ [i]) = (e.at? path).bind fun p => p.core.node.children[i]? := by
  induction path generalizing e with
  | nil => simp [at?]
  | cons j path ih =>
    simp only [List.cons_append, at?, Option.bind_assoc]
    exact congrArg _ (funext ih)

end Expr

/-! ## The groups that matter -/

/-- The groups of `t` are the groups of `e` that matter. -/
structure PlacedGroups {α : Type} (e t : Expr α) : Prop where
  /-- Apart from groups the trees are the same. -/
  ungroup_eq : t.ungroup = e.ungroup
  /-- The whole tree is in no group. -/
  root : t.node.isGroup = false
  /-- A group is an operand of an operator or the base of an indexed expression. -/
  place : ∀ s ∈ t.nodes, ∀ i c, s.node.children[i]? = some c → c.node.isGroup →
    s.node.groupMatters i
  /-- A group holds something that is written with operators. -/
  content : ∀ s ∈ t.nodes, ∀ inner, s.node = .paren inner → inner.node.isOperatorLike
  /-- Both trees have the same addresses, and the same node at each of them. -/
  same : ∀ path, (t.at? path).map (fun s => (s.core.note, s.core.node.shell)) =
    (e.at? path).map fun s => (s.core.note, s.core.node.shell)
  /-- Where a group matters, what is written with operators is in one group if it was in any, and
  that one carries the annotation of the innermost. All else is in no group. -/
  groups_eq : ∀ path i p c, e.at? path = some p → e.at? (path ++ [i]) = some c →
    (t.at? (path ++ [i])).map Expr.groups =
      some (if p.core.node.groupMatters i && c.core.node.isOperatorLike then
        c.groups.getLast? else none).toList

/-! ## Normalization by addresses -/

namespace Grouped

variable {α : Type}

/-- What is left of a tree is its core with the children normalized for their places. -/
theorem bare_eq (e : Expr α) :
    (ofExpr e).bare =
      ⟨e.core.note, e.core.node.mapPlaces fun keep c => (ofExpr c).placed keep⟩ := by
  induction e using Expr.groupInduct with
  | paren note inner ih => rw [ofExpr_paren, Expr.core_paren, ih]
  | other e h _ => rw [ofExpr_of_not_group h, Expr.core_of_not_group h]

/-- The group that is remembered is the innermost. -/
theorem group_eq (e : Expr α) : (ofExpr e).group = e.groups.getLast? := by
  induction e using Expr.groupInduct with
  | paren note inner ih => rw [ofExpr_paren, Expr.groups_paren, ih, List.getLast?_cons]
  | other e h _ => rw [ofExpr_of_not_group h, Expr.groups_of_not_group h, List.getLast?_nil]

theorem isOperatorLike_bare (e : Expr α) :
    (ofExpr e).bare.node.isOperatorLike = e.core.node.isOperatorLike := by
  rw [bare_eq, Node.isOperatorLike_mapPlaces]

/-- The group in which an expression is left in a place. -/
def groupIn? (keep : Bool) (e : Expr α) : Option α :=
  if keep && e.core.node.isOperatorLike then e.groups.getLast? else none

theorem placed_of_none {e : Expr α} {keep : Bool} (h : groupIn? keep e = none) :
    (ofExpr e).placed keep = (ofExpr e).bare := by
  cases keep with
  | false => rfl
  | true =>
    simp only [groupIn?, Bool.true_and, ← isOperatorLike_bare, ← group_eq] at h
    simp only [placed, if_true, kept]
    split
    · next note hgroup =>
      split
      · next hop => simp [hop, hgroup] at h
      · rfl
    · rfl

theorem placed_of_some {e : Expr α} {keep : Bool} {note : α} (h : groupIn? keep e = some note) :
    (ofExpr e).placed keep = ⟨note, .paren (ofExpr e).bare⟩ := by
  cases keep with
  | false => cases h
  | true =>
    simp only [groupIn?, Bool.true_and, ← isOperatorLike_bare, ← group_eq,
      Option.ite_none_right_eq_some] at h
    simp [placed, kept, h.1, h.2]

/-- A group is left only where one matters, and only around what is written with operators. -/
theorem of_groupIn?_eq_some {e : Expr α} {keep : Bool} {note : α}
    (h : groupIn? keep e = some note) : keep = true ∧ e.core.node.isOperatorLike = true := by
  simp only [groupIn?, Option.ite_none_right_eq_some, Bool.and_eq_true] at h
  exact h.1

theorem core_bare (e : Expr α) : (ofExpr e).bare.core = (ofExpr e).bare :=
  Expr.core_of_not_group (isGroup_bare e)

theorem core_placed (e : Expr α) (keep : Bool) :
    ((ofExpr e).placed keep).core = (ofExpr e).bare := by
  cases h : groupIn? keep e with
  | none => rw [placed_of_none h, core_bare]
  | some note => rw [placed_of_some h, Expr.core_paren, core_bare]

theorem groups_placed (e : Expr α) (keep : Bool) :
    ((ofExpr e).placed keep).groups = (groupIn? keep e).toList := by
  have hbare : (ofExpr e).bare.groups = [] := Expr.groups_of_not_group (isGroup_bare e)
  cases h : groupIn? keep e with
  | none => rw [placed_of_none h, hbare, Option.toList_none]
  | some note => rw [placed_of_some h, Expr.groups_paren, hbare, Option.toList_some]

/-- The children below a normalized core are the children of the core, each for its place. -/
theorem children_core_placed (e : Expr α) (keep : Bool) (i : Nat) :
    ((ofExpr e).placed keep).core.node.children[i]? =
      e.core.node.children[i]?.map fun c => (ofExpr c).placed (e.core.node.groupMatters i) := by
  rw [core_placed, bare_eq, Node.children_mapPlaces]

/-- At each address stands what stood there, normalized. -/
theorem at?_placed (path : List Nat) (e : Expr α) (keep : Bool) :
    (((ofExpr e).placed keep).at? path).map Expr.core =
      (e.at? path).map fun s => (ofExpr s).bare := by
  induction path generalizing e keep with
  | nil => exact congrArg some (core_placed e keep)
  | cons i path ih =>
    rw [Expr.at?, Expr.at?, children_core_placed]
    cases e.core.node.children[i]? with
    | none => rfl
    | some c => exact ih c _

/-! ## Nodes of a normalized tree -/

/-- What holds of a group that matters and of what is left of each tree holds of all nodes. -/
theorem forall_mem_nodes_bare {motive : Expr α → Prop}
    (bare : ∀ e, motive (ofExpr e).bare)
    (group : ∀ e note, groupIn? true e = some note → motive ⟨note, .paren (ofExpr e).bare⟩)
    (e : Expr α) : ∀ s ∈ (ofExpr e).bare.nodes, motive s := by
  induction e using Expr.groupInduct with
  | paren note inner ih =>
    rw [ofExpr_paren]
    exact ih
  | other e h ih =>
    intro s hs
    rcases Expr.mem_nodes.mp hs with rfl | ⟨c', hc', hs⟩
    · exact bare e
    · obtain ⟨i, hi⟩ := List.mem_iff_getElem?.mp hc'
      rw [bare_eq, Node.children_mapPlaces, Option.map_eq_some_iff, Expr.core_of_not_group h] at hi
      obtain ⟨c, hc, rfl⟩ := hi
      have hmem : c ∈ e.node.children := List.mem_of_getElem? hc
      cases hgroup : groupIn? (e.node.groupMatters i) c with
      | none =>
        rw [placed_of_none hgroup] at hs
        exact ih c hmem s hs
      | some note =>
        rw [placed_of_some hgroup] at hs
        rcases Expr.mem_nodes.mp hs with rfl | ⟨d, hd, hs⟩
        · rw [(of_groupIn?_eq_some hgroup).1] at hgroup
          exact group c note hgroup
        · rw [List.mem_singleton.mp hd] at hs
          exact ih c hmem s hs

/-- In a normalized tree, a child that is a group is in a place where one matters. -/
theorem groupMatters_of_mem_nodes (e : Expr α) :
    ∀ s ∈ (ofExpr e).bare.nodes, ∀ i c, s.node.children[i]? = some c → c.node.isGroup →
      s.node.groupMatters i := by
  apply forall_mem_nodes_bare
  · intro e i c hc hgroup
    rw [bare_eq, Node.children_mapPlaces, Option.map_eq_some_iff] at hc
    obtain ⟨d, -, rfl⟩ := hc
    rw [bare_eq, Node.groupMatters_mapPlaces]
    cases hkeep : e.core.node.groupMatters i with
    | true => rfl
    | false =>
      rw [hkeep, placed_of_none rfl, isGroup_bare] at hgroup
      cases hgroup
  · intro e note _ i c hc hgroup
    have hc : c = (ofExpr e).bare := List.mem_singleton.mp (List.mem_of_getElem? hc)
    rw [hc, isGroup_bare] at hgroup
    cases hgroup

/-- In a normalized tree, a group holds something that is written with operators. -/
theorem isOperatorLike_of_mem_nodes (e : Expr α) :
    ∀ s ∈ (ofExpr e).bare.nodes, ∀ inner, s.node = .paren inner → inner.node.isOperatorLike := by
  apply forall_mem_nodes_bare
  · intro e inner h
    have hgroup := isGroup_bare e
    rw [h] at hgroup
    cases hgroup
  · intro e note hgroup inner h
    obtain rfl : (ofExpr e).bare = inner := Node.paren.inj h
    rw [isOperatorLike_bare]
    exact (of_groupIn?_eq_some hgroup).2

end Grouped

/-- After normalization exactly the groups that matter are left, each of them once. -/
theorem Expr.normalizeGroups_placed {α : Type} (e : Expr α) : PlacedGroups e e.normalizeGroups where
  ungroup_eq := ungroup_normalizeGroups e
  root := Grouped.isGroup_bare e
  place := Grouped.groupMatters_of_mem_nodes e
  content := Grouped.isOperatorLike_of_mem_nodes e
  same path := by
    have h : (e.normalizeGroups.at? path).map core = _ := Grouped.at?_placed path e false
    replace h := congrArg (Option.map fun s => (s.note, s.node.shell)) h
    simpa only [Option.map_map, Function.comp_def, Grouped.bare_eq, Node.shell_mapPlaces] using h
  groups_eq path i p c hp hc := by
    have hcore : (e.normalizeGroups.at? path).map core = _ := Grouped.at?_placed path e false
    rw [hp, Option.map_some] at hcore
    obtain ⟨p', hp', hcore⟩ := Option.map_eq_some_iff.mp hcore
    rw [at?_concat, hp, Option.bind_some] at hc
    have hchild : p'.core.node.children[i]? =
        some ((Grouped.ofExpr c).placed (p.core.node.groupMatters i)) := by
      rw [hcore, Grouped.bare_eq, Node.children_mapPlaces, hc, Option.map_some]
    rw [at?_concat, hp', Option.bind_some, hchild, Option.map_some, Grouped.groups_placed]
    rfl

end ModelForm
