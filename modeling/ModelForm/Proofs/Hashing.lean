import ModelForm.Expr.Hash
import ModelForm.Proofs.Equality

/-!
# Equality and hashing agree

Equality of trees pairs up children and stops at the first difference, hashing walks one tree at a
time. They agree because a tree can be read off the list of its heads: a head says how many children
follow, and so where each of them ends.

* `Expr.ofPreorder?_preorder`: planting the pre-order list of a tree gives the tree.
* `Expr.ext_of_descend?`: trees that have the same places and the same head at each of them are
  equal.
* `Expr.structurally_compared`: for each kind of annotation, equality of trees is agreement at every
  place, and is agreement of what a hasher is given.
-/

namespace ModelForm

namespace Expr

variable {α β : Type}

/-! ## Reading a tree off its pre-order list -/

theorem preorder_eq (e : Expr α) :
    e.preorder = (e.note, e.node.shell) :: e.node.children.flatMap preorder := by
  rw [preorder, nodes_eq, List.map_cons, List.map_flatMap]
  rfl

/-- A node is put on top of its children, and what was planted before stays. -/
theorem plant_children (e : Expr α) (trees : List (Expr α)) :
    plant (e.node.children ++ trees) (e.note, e.node.shell) = some (e :: trees) := by
  have hdrop : (e.node.children ++ trees).drop e.node.shell.arity = trees := by
    rw [Node.arity_shell, ← Node.length_children, List.drop_left]
  cases e
  simp only [plant, Node.fill?_shell_children, hdrop]
  rfl

/-- Planting the list of a tree from its end puts the tree before those that are there. -/
theorem foldlM_plant_preorder (e : Expr α) (trees : List (Expr α)) :
    e.preorder.reverse.foldlM plant trees = some (e :: trees) := by
  induction e using induct generalizing trees with
  | step e ih =>
    have hlist : ∀ es : List (Expr α), (∀ c ∈ es, c ∈ e.node.children) →
        (es.flatMap preorder).reverse.foldlM plant trees = some (es ++ trees) := by
      intro es hes
      induction es with
      | nil => rfl
      | cons c es ihes =>
        have hrest := ihes fun d hd => hes d (List.mem_cons_of_mem c hd)
        rw [List.flatMap_cons, List.reverse_append, List.foldlM_append, hrest]
        exact ih c (hes c List.mem_cons_self) (es ++ trees)
    rw [preorder_eq, List.reverse_cons, List.foldlM_append, hlist _ fun c hc => hc]
    simp only [Option.bind_eq_bind, Option.bind_some, List.foldlM_cons, plant_children,
      List.foldlM_nil]
    rfl

/-- A tree is planted back from its pre-order list. -/
theorem ofPreorder?_preorder (e : Expr α) : ofPreorder? e.preorder = some e := by
  rw [ofPreorder?, foldlM_plant_preorder]

theorem preorder_inj {a b : Expr α} : a.preorder = b.preorder ↔ a = b := by
  constructor
  · intro h
    apply Option.some.inj
    rw [← ofPreorder?_preorder a, h, ofPreorder?_preorder]
  · rintro rfl
    rfl

/-- What a hasher is given is the pre-order list of the tree that keeps only what annotations
say. -/
theorem preorder_mapNotes (f : α → β) (e : Expr α) : (e.mapNotes f).preorder = e.hashed f := by
  induction e using induct with
  | step e ih =>
    rw [preorder_eq, hashed, nodes_eq, List.map_cons, List.map_flatMap, note_mapNotes,
      node_mapNotes, Node.shell_map, Node.children_map, List.flatMap_map, List.flatMap_def,
      List.map_congr_left ih]
    rfl

theorem hashed_eq_map_preorder (f : α → β) (e : Expr α) :
    e.hashed f = e.preorder.map (Prod.map f id) := by
  rw [hashed, preorder, List.map_map]
  rfl

/-- A hasher ends in the state that its items lead to. -/
theorem hashInto_eq_foldl {σ : Type} (f : α → β) (take : σ → β × Shell → σ) (state : σ)
    (e : Expr α) : e.hashInto f take state = (e.hashed f).foldl take state := by
  rw [hashInto, hashed, List.foldl_map]

/-! ## Places -/

/-- The tree at a place, which is given by the positions of the children that lead to it. -/
def descend? (e : Expr α) : List Nat → Option (Expr α)
  | []        => some e
  | i :: path => e.node.children[i]?.bind fun c => c.descend? path

/-- What is done to the children of every tree in their places is done at all places. -/
theorem descend?_of_children {g : Expr α → Expr β}
    (h : ∀ e, (g e).node.children = e.node.children.map g) (e : Expr α) (path : List Nat) :
    (g e).descend? path = (e.descend? path).map g := by
  induction path generalizing e with
  | nil => rfl
  | cons i path ih =>
    rw [descend?, descend?, h, List.getElem?_map, Option.bind_map, Option.map_bind]
    congr 1
    funext c
    exact ih c

theorem descend?_mapNotes (f : α → β) (e : Expr α) (path : List Nat) :
    (e.mapNotes f).descend? path = (e.descend? path).map (mapNotes f) := by
  apply descend?_of_children
  intro e
  rw [node_mapNotes, Node.children_map]

/-- Trees with the same places and the same annotation and shell at each of them are equal. -/
theorem ext_of_descend? {a b : Expr α}
    (h : ∀ path, (a.descend? path).map (head id) = (b.descend? path).map (head id)) : a = b := by
  induction a using induct generalizing b with
  | step a ih =>
    have hroot : a.head id = b.head id := Option.some.inj (h [])
    obtain ⟨hnote, hshell⟩ := Prod.mk.inj hroot
    have hlength := Node.length_children_of_shell hshell
    have hchildren : a.node.children = b.node.children := by
      apply List.ext_getElem hlength
      intro i ha hb
      refine ih _ (List.getElem_mem ha) fun path => ?_
      have hpath := h (i :: path)
      rwa [descend?, descend?, List.getElem?_eq_getElem ha, List.getElem?_eq_getElem hb] at hpath
    have hnode := Node.ext_of_shell hshell hchildren
    cases a
    cases b
    exact congr (congrArg Expr.mk hnote) hnode

end Expr

/-! ## What equality comes down to -/

theorem EqualBy.prod {γ δ ε : Type} [BEq γ] [BEq ε] [LawfulBEq ε] {f : γ → δ} (h : EqualBy f) :
    EqualBy (Prod.map f (id : ε → ε)) := by
  rintro ⟨a, x⟩ ⟨b, y⟩
  show (a == b && x == y) = true ↔ (f a, x) = (f b, y)
  rw [Bool.and_eq_true, h a b, beq_iff_eq, Prod.mk.injEq]

/-- Trees are compared by their structure and by what `meaning` takes from their annotations, and
are hashed by the same. -/
structure Structural {α β : Type} [BEq α] (meaning : α → β) : Prop where
  /-- Equal trees have the same places. At each of them the shells are the same, and so the forms,
  names, texts and kinds, and the annotations say the same. -/
  beq_iff_descend? : ∀ a b : Expr α, a == b ↔ ∀ path,
    (a.descend? path).map (Expr.head meaning) = (b.descend? path).map (Expr.head meaning)
  /-- A hasher is given the same by equal trees and by no others. -/
  beq_iff_hashed : ∀ a b : Expr α, a == b ↔ a.hashed meaning = b.hashed meaning
  /-- The same said of the annotations as they are: the lists are equal item by item. -/
  beq_eq_preorder : ∀ a b : Expr α, (a == b) = (a.preorder == b.preorder)
  /-- No hasher tells equal trees apart, and some hasher tells other trees apart. -/
  beq_iff_hashInto : ∀ a b : Expr α, a == b ↔
    ∀ (σ : Type) (take : σ → β × Shell → σ) (state : σ),
      a.hashInto meaning take state = b.hashInto meaning take state

/-- All of it follows once it is known what counts of an annotation. -/
theorem EqualBy.structural {α β : Type} [BEq α] {meaning : α → β} (h : EqualBy meaning) :
    Structural meaning where
  beq_iff_descend? a b := by
    have hhead (e : Expr α) (path : List Nat) :
        ((e.mapNotes meaning).descend? path).map (Expr.head id) =
          (e.descend? path).map (Expr.head meaning) := by
      rw [Expr.descend?_mapNotes, Option.map_map]
      congr 1
      funext s
      simp [Expr.head]
    rw [h.mapNotes a b]
    constructor
    · intro heq path
      rw [← hhead, heq, hhead]
    · intro heads
      apply Expr.ext_of_descend?
      intro path
      rw [hhead, hhead, heads]
  beq_iff_hashed a b := by
    rw [h.mapNotes a b, ← Expr.preorder_inj, Expr.preorder_mapNotes, Expr.preorder_mapNotes]
  beq_eq_preorder a b := by
    rw [Bool.eq_iff_iff, h.mapNotes a b, ← Expr.preorder_inj, Expr.preorder_mapNotes,
      Expr.preorder_mapNotes, Expr.hashed_eq_map_preorder, Expr.hashed_eq_map_preorder]
    exact (h.prod.list _ _).symm
  beq_iff_hashInto a b := by
    rw [h.mapNotes a b, ← Expr.preorder_inj, Expr.preorder_mapNotes, Expr.preorder_mapNotes]
    constructor
    · intro hitems σ take state
      rw [Expr.hashInto_eq_foldl, Expr.hashInto_eq_foldl, hitems]
    · intro hstates
      -- the hasher that keeps all that it is given
      have hkept := hstates _ (fun items item => item :: items) []
      simpa [Expr.hashInto_eq_foldl] using hkept

theorem equalBy_untyped : EqualBy Untyped.meaning := by
  intro a b
  cases a
  cases b
  exact iff_of_true rfl rfl

theorem equalBy_typed : EqualBy Typed.meaning := by
  intro a b
  show (a.meaning == b.meaning) = true ↔ _
  rw [beq_iff_eq]

theorem equalBy_labelled : EqualBy Labelled.meaning := fun a b => equalBy_typed a.toTyped b.toTyped

/-- Parsed trees are equal if their structure is, typed and labelled ones if besides the types and
autodiff levels are. Spans and labels do not count. Hashing agrees with equality for each of
them. -/
theorem Expr.structurally_compared :
    Structural Untyped.meaning ∧ Structural Typed.meaning ∧ Structural Labelled.meaning :=
  ⟨equalBy_untyped.structural, equalBy_typed.structural, equalBy_labelled.structural⟩

end ModelForm
