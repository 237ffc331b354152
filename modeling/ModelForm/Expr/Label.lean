import Std.Data.TreeMap
import ModelForm.Annotation
import ModelForm.Expr.Preorder

/-!
# Labels

`Expr.label` numbers the nodes of a typed tree in pre-order, from a given start. It fails when the
labels would run past the largest one. The nodes are counted before any is numbered, and
`Expr.isSome_number` says that the count is right: the labels last to the end of the walk that hands
them out. `Expr.associate` collects the nodes of a labelled tree by their labels, and fails when two
nodes share one.
-/

namespace ModelForm

/-- Why a tree cannot be labelled, or its labels not be looked up. -/
inductive LabelError where
  /-- Fewer labels are left from the start on than the tree has nodes. -/
  | rangeExhausted (start : Label) (nodes : Nat)
  /-- The label is that of more than one node. -/
  | duplicate (label : Label)
  deriving DecidableEq, Repr

def LabelError.message : LabelError → String
  | .rangeExhausted start nodes =>
    "cannot assign " ++ toString nodes ++ " labels starting at " ++ start.render
  | .duplicate label => "label " ++ label.render ++ " is assigned to more than one node"

/-- The nodes of a labelled tree by their labels. -/
abbrev Association := Std.TreeMap Label (Expr Labelled)

namespace Expr

/-! ## Numbering -/

/-- Takes the next of the labels that are left. None is left once the largest is taken. -/
def takeLabel : StateM (Option Label) (Option Label) := fun left => (left, left.bind Label.next?)

/-- The tree with its nodes numbered in pre-order by the labels that are left, unless these run
out. -/
def number (e : Expr Typed) : StateM (Option Label) (Option (Expr Labelled)) :=
  e.foldWith (fun e => return (← takeLabel).map e.note.withLabel)
    (fun note node => pure do return ⟨← note, ← node.traverse id⟩)

/-- The root takes a label before the children do. -/
theorem number_fst (e : Expr Typed) (left : Option Label) :
    (e.number left).1 = (do
      let label ← left
      let node ← (e.node.traverse number (left.bind Label.next?)).1.traverse id
      return ⟨e.note.withLabel label, node⟩) := by
  have h : e.number left = _ := congrFun (foldWith_eq _ _ e) left
  rw [h]
  cases left <;> rfl

theorem number_snd (e : Expr Typed) (left : Option Label) :
    (e.number left).2 = (e.node.children.mapM number (left.bind Label.next?)).2 := by
  have h : e.number left = _ := congrFun (foldWith_eq _ _ e) left
  rw [h, ← Node.traverse_snd]
  rfl

/-! ### Running out of labels -/

/-- The labels that are left once as many as the number says are taken. -/
def labelAt (n : Nat) : Option Label := if n < UInt32.size then some (.ofNat n) else none

theorem labelAt_toNat (label : Label) : labelAt label.toNat = some label := by
  simp [labelAt, UInt32.toNat_lt_size]

theorem labelAt_bind_next? (n : Nat) : (labelAt n).bind Label.next? = labelAt (n + 1) := by
  unfold labelAt
  split
  · next h => simp [Label.next?, UInt32.toNat_ofNat_of_lt' h]
  · next h =>
    rw [if_neg (by omega)]
    rfl

theorem mapM_number_snd {cs : List (Expr Typed)}
    (h : ∀ c ∈ cs, ∀ n, (c.number (labelAt n)).2 = labelAt (n + c.nodeCount)) (n : Nat) :
    (cs.mapM number (labelAt n)).2 = labelAt (n + total (cs.map nodeCount)) := by
  induction cs generalizing n with
  | nil => rfl
  | cons c cs ih =>
    rw [List.mapM_cons]
    show (cs.mapM number (c.number (labelAt n)).2).2 = _
    rw [h c List.mem_cons_self, ih fun d hd => h d (List.mem_cons_of_mem c hd), List.map_cons,
      total_cons, Nat.add_assoc]

/-- Numbering takes one label for each node. -/
theorem number_labelAt_snd (e : Expr Typed) (n : Nat) :
    (e.number (labelAt n)).2 = labelAt (n + e.nodeCount) := by
  induction e using induct generalizing n with
  | step e ih =>
    rw [number_snd, labelAt_bind_next?, mapM_number_snd ih, nodeCount_eq, Nat.add_right_comm,
      Nat.add_assoc]

theorem isSome_mapM_number {cs : List (Expr Typed)}
    (h : ∀ c ∈ cs, ∀ n, n + c.nodeCount ≤ UInt32.size → (c.number (labelAt n)).1.isSome) {n : Nat}
    (hn : n + total (cs.map nodeCount) ≤ UInt32.size) :
    ∀ r ∈ (cs.mapM number (labelAt n)).1, r.isSome := by
  induction cs generalizing n with
  | nil => exact fun r hr => nomatch hr
  | cons c cs ih =>
    rw [List.map_cons, total_cons] at hn
    rw [List.mapM_cons]
    show ∀ r ∈ (c.number (labelAt n)).1 :: (cs.mapM number (c.number (labelAt n)).2).1, r.isSome
    rw [number_labelAt_snd, List.forall_mem_cons]
    exact ⟨h c List.mem_cons_self n (by omega),
      ih (fun d hd => h d (List.mem_cons_of_mem c hd)) (by omega)⟩

/-- Numbering gives a tree if there is a label for each node. -/
theorem isSome_number {e : Expr Typed} {n : Nat} (h : n + e.nodeCount ≤ UInt32.size) :
    (e.number (labelAt n)).1.isSome := by
  induction e using induct generalizing n with
  | step e ih =>
    rw [nodeCount_eq] at h
    have hleft : labelAt n = some (.ofNat n) := if_pos (by omega)
    have hnode : ((e.node.traverse number (labelAt (n + 1))).1.traverse id).isSome := by
      apply Node.isSome_traverse_id
      rw [Node.children_traverse_fst]
      exact isSome_mapM_number (fun c hc n => ih c hc) (by omega)
    obtain ⟨node, hnode⟩ := Option.isSome_iff_exists.mp hnode
    rw [number_fst, labelAt_bind_next?, hnode, hleft]
    rfl

/-! ### Labels from a start on -/

/-- The tree with its nodes numbered in pre-order from the start on. -/
def label (e : Expr Typed) (start : Label) : Except LabelError (Expr Labelled) :=
  if h : start.toNat + e.size > UInt32.size then
    .error (.rangeExhausted start e.size)
  else
    .ok ((e.number (some start)).1.get (by
      rw [← labelAt_toNat, isSome_number]
      rw [← size_eq_nodeCount]
      exact Nat.le_of_not_gt h))

def unlabel (e : Expr Labelled) : Expr Typed := e.mapNotes Labelled.toTyped

/-! ## Looking up -/

/-- Adds a node under its label, which must be new. -/
def record (found : Association) (e : Expr Labelled) : Except LabelError Association :=
  if found.contains e.note.label then
    .error (.duplicate e.note.label)
  else
    .ok (found.insert e.note.label e)

/-- The nodes by their labels. The error names the first label in pre-order that comes again. -/
def associate (e : Expr Labelled) : Except LabelError Association := e.nodes.foldlM record ∅

end Expr

end ModelForm
