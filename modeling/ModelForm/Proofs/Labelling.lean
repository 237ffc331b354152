import ModelForm.Expr.Label
import ModelForm.Proofs.Equality
import ModelForm.Proofs.WorkList

/-!
# Numbered trees

Whether there are enough labels is decided by counting the nodes on one walk, and the labels are
handed out on another. The two agree on how many nodes there are and on their order.

* `Expr.number_eq_some` — what a walk that did not run out of labels did at the root.
* `Expr.numbered_of_number` — what it made of the whole tree: the labels in pre-order are the
  numbers from the first one on, and without them the tree is as it was.
* `Expr.nodes_contiguous` — the nodes of a subtree stand together in pre-order, so its labels do.

`Numbered` says all that it is to be numbered, and `Expr.label_complete` that labelling achieves it
whenever the labels reach.
-/

namespace ModelForm

/-! ## Nodes with children that may be missing -/

theorem eq_map_some_of_mapM {γ : Type} {cs : List (Option γ)} {ds : List γ}
    (h : cs.mapM id = some ds) : cs = ds.map some := by
  induction cs generalizing ds with
  | nil =>
    obtain rfl : [] = ds := Option.some.inj h
    rfl
  | cons c cs ih =>
    simp only [List.mapM_cons, id_eq, bind_pure_comp, Option.map_eq_map, Option.bind_eq_bind,
      Option.bind_eq_some_iff, Option.map_eq_some_iff] at h
    obtain ⟨d, rfl, es, hes, rfl⟩ := h
    rw [ih hes, List.map_cons]

/-- A node that is there has all its children. -/
theorem Node.eq_map_some_of_traverse {γ : Type} {n : Node (Option γ)} {m : Node γ}
    (h : n.traverse id = some m) : n = m.map some := by
  have hchildren : n.children = m.children.map some := by
    apply eq_map_some_of_mapM
    rw [← children_traverse, h]
    rfl
  -- the node that has the shell of `n` and the children of `m` can only be `m`
  have hlength : m.children.length = n.shell.arity := by
    rw [arity_shell, ← length_children, hchildren, List.length_map]
  obtain ⟨k, hshell, hk⟩ := exists_of_children n.shell hlength
  have hn : n = k.map some := by
    apply ext_of_shell
    · rw [shell_map, hshell]
    · rw [children_map, hk, hchildren]
  have htraverse : n.traverse id = some (k.map id) := by
    rw [hn, traverse_map]
    exact traverse_pure (m := Option) id k
  rw [h, map_id] at htraverse
  rw [Option.some.inj htraverse, hn]

namespace Expr

/-! ## One walk -/

theorem labelAt_eq_some {n : Nat} {label : Label} (h : labelAt n = some label) :
    label.toNat = n := by
  unfold labelAt at h
  split at h
  · next hn =>
    obtain rfl := Option.some.inj h
    exact UInt32.toNat_ofNat_of_lt' hn
  · cases h

/-- The root has taken the first label, and the children have taken theirs after it. -/
theorem number_eq_some {e : Expr Typed} {n : Nat} {t : Expr Labelled}
    (h : (e.number (labelAt n)).1 = some t) :
    t.note.toTyped = e.note ∧ t.note.label.toNat = n ∧ t.node.shell = e.node.shell ∧
      (e.node.children.mapM number (labelAt (n + 1))).1 = t.node.children.map some := by
  rw [number_fst, labelAt_bind_next?] at h
  simp only [Option.bind_eq_bind, Option.bind_eq_some_iff] at h
  obtain ⟨label, hlabel, node, hnode, ht⟩ := h
  obtain rfl : ⟨e.note.withLabel label, node⟩ = t := Option.some.inj ht
  have hvisited := Node.eq_map_some_of_traverse hnode
  refine ⟨rfl, labelAt_eq_some hlabel, ?_, ?_⟩
  · rw [← Node.shell_map some, ← hvisited, Node.shell_traverse]
  · rw [← Node.children_traverse_fst, hvisited, Node.children_map]

/-- The same for several trees in a row. -/
theorem mapM_number_eq_some {c : Expr Typed} {cs : List (Expr Typed)} {n : Nat}
    {ts : List (Expr Labelled)} (h : ((c :: cs).mapM number (labelAt n)).1 = ts.map some) :
    ∃ t rest, ts = t :: rest ∧ (c.number (labelAt n)).1 = some t ∧
      (cs.mapM number (labelAt (n + c.nodeCount))).1 = rest.map some := by
  rw [List.mapM_cons] at h
  replace h : (c.number (labelAt n)).1 :: (cs.mapM number (c.number (labelAt n)).2).1 =
    ts.map some := h
  rw [number_labelAt_snd] at h
  cases ts with
  | nil => cases h
  | cons t rest =>
    rw [List.map_cons, List.cons.injEq] at h
    exact ⟨t, rest, rfl, h.1, h.2⟩

/-! ## The whole tree -/

def labels (e : Expr Labelled) : List Label := e.nodes.map fun s => s.note.label

theorem labels_eq (e : Expr Labelled) :
    e.labels = e.note.label :: e.node.children.flatMap labels := by
  rw [labels, nodes_eq, List.map_cons, List.map_flatMap]
  rfl

theorem unlabel_eq (e : Expr Labelled) :
    e.unlabel = ⟨e.note.toTyped, e.node.map unlabel⟩ := mapNotes_eq _ e

/-- A walk over several trees does to each what a walk over it alone does, from the label on at
which the walks before it have stopped. -/
theorem mapM_number_run {cs : List (Expr Typed)}
    (ih : ∀ c ∈ cs, ∀ n t, (c.number (labelAt n)).1 = some t →
      t.unlabel = c ∧ t.labels.map UInt32.toNat = List.range' n c.nodeCount)
    {n : Nat} {ts : List (Expr Labelled)} (h : (cs.mapM number (labelAt n)).1 = ts.map some) :
    ts.map unlabel = cs ∧
      (ts.flatMap labels).map UInt32.toNat = List.range' n (total (cs.map nodeCount)) := by
  induction cs generalizing n ts with
  | nil =>
    obtain rfl : ts = [] := List.map_eq_nil_iff.mp h.symm
    exact ⟨rfl, rfl⟩
  | cons c cs ihcs =>
    obtain ⟨t, rest, rfl, ht, hrest⟩ := mapM_number_eq_some h
    obtain ⟨hunlabel, hlabels⟩ := ih c List.mem_cons_self n t ht
    obtain ⟨hunlabels, hrest⟩ := ihcs (fun d hd => ih d (List.mem_cons_of_mem c hd)) hrest
    constructor
    · rw [List.map_cons, hunlabel, hunlabels]
    · rw [List.flatMap_cons, List.map_append, hlabels, hrest, List.map_cons, total_cons,
        List.range'_append_1]

/-- Without its labels a numbered tree is the tree that was numbered. Its labels in pre-order are as
many numbers as there are nodes, one after the other. -/
theorem number_run {e : Expr Typed} {n : Nat} {t : Expr Labelled}
    (h : (e.number (labelAt n)).1 = some t) :
    t.unlabel = e ∧ t.labels.map UInt32.toNat = List.range' n e.nodeCount := by
  induction e using induct generalizing n t with
  | step e ih =>
    obtain ⟨hnote, hlabel, hshell, hchildren⟩ := number_eq_some h
    obtain ⟨hunlabels, hlabels⟩ := mapM_number_run (fun c hc n t => ih c hc) hchildren
    have hnode : t.node.map unlabel = e.node := by
      apply Node.ext_of_shell
      · rw [Node.shell_map, hshell]
      · rw [Node.children_map, hunlabels]
    constructor
    · cases e
      rw [unlabel_eq, hnote, hnode]
    · rw [labels_eq, List.map_cons, hlabel, hlabels, nodeCount_eq, List.range'_succ]

/-! ## Subtrees -/

/-- The nodes of a subtree stand together in pre-order. -/
theorem nodes_contiguous {α : Type} {s e : Expr α} (h : s ∈ e.nodes) : s.nodes <:+: e.nodes := by
  induction e using induct with
  | step e ih =>
    rcases mem_nodes.mp h with rfl | ⟨c, hc, hs⟩
    · exact List.infix_rfl
    · have hchild : c.nodes <:+: e.node.children.flatMap nodes := by
        obtain ⟨before, after, hsplit⟩ := List.append_of_mem hc
        refine ⟨before.flatMap nodes, after.flatMap nodes, ?_⟩
        rw [hsplit, List.flatMap_append, List.flatMap_cons, List.append_assoc]
      rw [nodes_eq e]
      exact ((ih c hc hs).trans hchild).trans (List.suffix_cons _ _).isInfix

/-- Numbers that stand together in a run of numbers are a run. -/
theorem eq_range'_of_contiguous {n m k : Nat} {ns : List Nat} (h : n :: ns <:+: List.range' m k) :
    n :: ns = List.range' n (n :: ns).length := by
  obtain ⟨before, after, h⟩ := h
  obtain ⟨j, -, hfront, -⟩ := List.range'_eq_append_iff.mp h.symm
  obtain ⟨i, -, -, hrun⟩ := List.range'_eq_append_iff.mp hfront.symm
  cases hlength : j - i with
  | zero =>
    rw [hlength] at hrun
    cases hrun
  | succ l =>
    rw [hlength, List.range'_succ, List.cons.injEq] at hrun
    rw [hrun.1, hrun.2, List.length_cons, List.length_range', List.range'_succ]

theorem length_labels (e : Expr Labelled) : e.labels.length = e.size := List.length_map _

end Expr

/-! ## Labelling -/

/-- The nodes of `t` are those of `e`, numbered in pre-order from the start on. -/
structure Numbered (start : Nat) (e : Expr Typed) (t : Expr Labelled) : Prop where
  /-- Without its labels `t` is `e`, with all annotations as they were. -/
  unlabel_eq : t.unlabel = e
  /-- There are as many labels as `e` has nodes. -/
  size_eq : t.size = e.nodeCount
  /-- The label of a node is as far from the start as the node is from the root. -/
  label_eq : ∀ i s, t.nodes[i]? = some s → s.note.label.toNat = start + i
  /-- The labels in a subtree are the numbers from its own label on, one for each of its nodes. -/
  subtree : ∀ s ∈ t.nodes, s.labels.map UInt32.toNat = List.range' s.note.label.toNat s.size

namespace Expr

theorem numbered_of_number {e : Expr Typed} {n : Nat} {t : Expr Labelled}
    (h : (e.number (labelAt n)).1 = some t) : Numbered n e t := by
  obtain ⟨hunlabel, hlabels⟩ := number_run h
  have hsize : t.size = e.nodeCount := by
    rw [← length_labels, ← List.length_map UInt32.toNat, hlabels, List.length_range']
  refine ⟨hunlabel, hsize, ?_, ?_⟩
  · intro i s hs
    have hi : i < e.nodeCount := by
      rw [← hsize]
      exact (List.getElem?_eq_some_iff.mp hs).1
    have hlabel : (t.labels.map UInt32.toNat)[i]? = some s.note.label.toNat := by
      rw [labels, List.getElem?_map, List.getElem?_map, hs]
      rfl
    rw [hlabels, List.getElem?_range' hi, Nat.one_mul] at hlabel
    exact (Option.some.inj hlabel).symm
  · intro s hs
    have hrun : s.labels.map UInt32.toNat <:+: List.range' n e.nodeCount := by
      rw [← hlabels]
      exact ((nodes_contiguous hs).map _).map _
    rw [← length_labels, ← List.length_map UInt32.toNat]
    -- the run starts with the label of the root
    rw [labels_eq, List.map_cons] at hrun ⊢
    exact eq_range'_of_contiguous hrun

/-- A walk that comes to its end has found a label for each node. -/
theorem le_of_number {e : Expr Typed} {n : Nat} {t : Expr Labelled}
    (h : (e.number (labelAt n)).1 = some t) : n + e.nodeCount ≤ UInt32.size := by
  have hnumbered := numbered_of_number h
  have hpos := nodeCount_pos e
  have hlast : e.nodeCount - 1 < t.nodes.length := by
    have hsize : t.nodes.length = e.nodeCount := hnumbered.size_eq
    omega
  have hlabel := hnumbered.label_eq _ _ (List.getElem?_eq_getElem hlast)
  have hbound := UInt32.toNat_lt_size (t.nodes[e.nodeCount - 1]).note.label
  omega

/-- The walk that hands out the labels runs out of them exactly if the count says so. -/
theorem number_eq_none_iff (e : Expr Typed) (start : Label) :
    (e.number (some start)).1 = none ↔ UInt32.size < start.toNat + e.nodeCount := by
  rw [← labelAt_toNat]
  constructor
  · intro hnone
    apply Nat.lt_of_not_le
    intro hle
    have hsome := isSome_number hle
    rw [hnone] at hsome
    cases hsome
  · intro hpast
    apply Option.eq_none_iff_forall_ne_some.mpr
    intro t ht
    have hle := le_of_number ht
    omega

/-- Counting first makes no difference: the answer is what the walk alone would give. -/
theorem label_eq_number (e : Expr Typed) (start : Label) :
    e.label start =
      match (e.number (some start)).1 with
      | some t => .ok t
      | none   => .error (.rangeExhausted start e.nodeCount) := by
  have hnone := number_eq_none_iff e start
  rw [← size_eq_nodeCount] at hnone ⊢
  by_cases h : UInt32.size < start.toNat + e.size
  · rw [label, dif_pos h, hnone.mpr h]
  · obtain ⟨t, ht⟩ := Option.ne_none_iff_exists'.mp (mt hnone.mp h)
    simp only [label, dif_neg h, ht, Option.get_some]

theorem numbered_of_label {e : Expr Typed} {start : Label} {t : Expr Labelled}
    (h : e.label start = .ok t) : Numbered start.toNat e t := by
  apply numbered_of_number
  rw [labelAt_toNat]
  rw [label_eq_number] at h
  split at h
  · next ht => rw [ht, Except.ok.inj h]
  · cases h

/-- Labelling fails exactly if the labels would run past the largest one, which is when the walk
that hands them out would not come to its end. Otherwise the tree is numbered. -/
theorem label_complete (e : Expr Typed) (start : Label) :
    (e.label start = .error (.rangeExhausted start e.nodeCount) ↔
        UInt32.size < start.toNat + e.nodeCount) ∧
      ((e.number (some start)).1 = none ↔ UInt32.size < start.toNat + e.nodeCount) ∧
      (start.toNat + e.nodeCount ≤ UInt32.size ↔
        ∃ t, (e.number (some start)).1 = some t ∧ e.label start = .ok t ∧
          Numbered start.toNat e t) := by
  have hnone := number_eq_none_iff e start
  have hlabel := label_eq_number e start
  cases hnumber : (e.number (some start)).1 with
  | none =>
    have hpast := hnone.mp hnumber
    rw [hnumber] at hlabel
    refine ⟨iff_of_true hlabel hpast, iff_of_true rfl hpast, iff_of_false (by omega) ?_⟩
    rintro ⟨t, ht, -⟩
    cases ht
  | some t =>
    have hreach : ¬UInt32.size < start.toNat + e.nodeCount := by
      rw [← hnone, hnumber]
      exact nofun
    rw [hnumber] at hlabel
    refine ⟨iff_of_false ?_ hreach, iff_of_false nofun hreach,
      iff_of_true (by omega) ⟨t, rfl, hlabel, numbered_of_label hlabel⟩⟩
    rw [hlabel]
    exact nofun

end Expr

end ModelForm
