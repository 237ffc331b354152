import ModelForm.Expr.Fold

/-!
# The work-list of a fold

A fold works off a list of pending frames and puts its results on a list of finished ones. This file
looks at the machine between two steps.

* `Node.fill?_of_arity_le`: a shell can be filled from any supply that is long enough, and takes
  exactly as many children as it has places.
* `Machine.Balanced`: the invariant that ties pending frames to finished results. Read from the
  front, each pending visit adds one result and each pending exit takes as many as its node has
  children and adds one; at the end there is one.
* `Machine.exists_step?`: a balanced machine with something pending has a next step, which leaves it
  balanced.
* `Expr.foldWith_steps`: the fold is the recursion, and on the way nothing is ever missing.
-/

namespace ModelForm

/-! ## Filling a shell -/

section Filling

variable {γ : Type}

/-- Lists of places differ only in their lengths. -/
theorem map_unit_eq_of_length {cs : List γ} {places : List Unit} (h : cs.length = places.length) :
    (cs.map fun _ => ()) = places :=
  List.ext_getElem (by simpa using h) fun _ _ _ => rfl

namespace Index

theorem exists_of_children (i : Index Unit) {cs : List γ} (h : cs.length = i.arity) :
    ∃ filled : Index γ, (filled.map fun _ => ()) = i ∧ filled.children = cs := by
  cases i with
  | all => exact ⟨.all, rfl, (List.eq_nil_of_length_eq_zero h).symm⟩
  | single _ =>
    obtain ⟨position, rfl⟩ := List.length_eq_one_iff.mp h
    exact ⟨.single position, rfl, rfl⟩
  | upFrom _ =>
    obtain ⟨lower, rfl⟩ := List.length_eq_one_iff.mp h
    exact ⟨.upFrom lower, rfl, rfl⟩
  | between _ _ =>
    match cs, h with
    | [lower, upper], _ => exact ⟨.between lower upper, rfl, rfl⟩
  | multiple _ =>
    obtain ⟨positions, rfl⟩ := List.length_eq_one_iff.mp h
    exact ⟨.multiple positions, rfl, rfl⟩

theorem exists_list_of_children (is : List (Index Unit)) {cs : List γ}
    (h : cs.length = total (is.map arity)) :
    ∃ filled : List (Index γ),
      filled.map (map fun _ => ()) = is ∧ filled.flatMap children = cs := by
  induction is generalizing cs with
  | nil => exact ⟨[], rfl, (List.eq_nil_of_length_eq_zero h).symm⟩
  | cons i is ih =>
    rw [List.map_cons, total_cons] at h
    have hfront : (cs.take i.arity).length = i.arity := by
      rw [List.length_take]
      omega
    have hback : (cs.drop i.arity).length = total (is.map arity) := by
      rw [List.length_drop]
      omega
    obtain ⟨first, hfirst, hchildren⟩ := exists_of_children i hfront
    obtain ⟨rest, hrest, hothers⟩ := ih hback
    refine ⟨first :: rest, ?_, ?_⟩
    · rw [List.map_cons, hfirst, hrest]
    · rw [List.flatMap_cons, hchildren, hothers, List.take_append_drop]

end Index

namespace Node

/-- Every shell is the shell of a node with any given children, if their number is right. -/
theorem exists_of_children (s : Shell) {cs : List γ} (h : cs.length = s.arity) :
    ∃ n : Node γ, n.shell = s ∧ n.children = cs := by
  cases s with
  | var name => exact ⟨.var name, rfl, (List.eq_nil_of_length_eq_zero h).symm⟩
  | literal kind text => exact ⟨.literal kind text, rfl, (List.eq_nil_of_length_eq_zero h).symm⟩
  | call kind name places =>
    exact ⟨.call kind name cs, congrArg (Node.call kind name) (map_unit_eq_of_length h), rfl⟩
  | conditional _ _ _ =>
    match cs, h with
    | [test, yes, no], _ => exact ⟨.conditional test yes no, rfl, rfl⟩
  | and _ _ =>
    match cs, h with
    | [left, right], _ => exact ⟨.and left right, rfl, rfl⟩
  | or _ _ =>
    match cs, h with
    | [left, right], _ => exact ⟨.or left right, rfl, rfl⟩
  | indexed _ places =>
    cases cs with
    | nil =>
      simp only [arity, List.length_nil] at h
      omega
    | cons base bounds =>
      have hbounds : bounds.length = total (places.map Index.arity) := by
        simp only [arity, List.length_cons] at h
        omega
      obtain ⟨indices, hindices, hchildren⟩ := Index.exists_list_of_children places hbounds
      exact ⟨.indexed base indices, congrArg (Node.indexed ()) hindices,
        congrArg (List.cons base) hchildren⟩
  | paren _ =>
    obtain ⟨inner, rfl⟩ := List.length_eq_one_iff.mp h
    exact ⟨.paren inner, rfl, rfl⟩

/-- A long enough supply fills a shell, and its front becomes the children. -/
theorem fill?_of_arity_le {s : Shell} {supply : List γ} (h : s.arity ≤ supply.length) :
    ∃ n, s.fill? supply = some n ∧ n.shell = s ∧ n.children = supply.take s.arity := by
  have hfront : (supply.take s.arity).length = s.arity := by
    rw [List.length_take]
    omega
  obtain ⟨n, hshell, hchildren⟩ := exists_of_children s hfront
  refine ⟨n, ?_, hshell, hchildren⟩
  have hfill := fill?_shell_children n (supply.drop s.arity)
  rwa [hshell, hchildren, List.take_append_drop] at hfill

end Node

end Filling

/-! ## Steps of the machine -/

namespace Expr

/-- What a fold holds between two steps: the pending frames, the finished results with the latest
one first, and the state that is passed along. -/
structure Machine (α A R σ : Type) where
  pending : List (Frame α A)
  done : List R
  state : σ

namespace Machine

variable {α A R σ : Type}

def start (e : Expr α) (s : σ) : Machine α A R σ := ⟨[.enter e], [], s⟩

/-- The number of steps that are left to do. -/
def weight (m : Machine α A R σ) : Nat := total (m.pending.map Frame.weight)

theorem weight_eq_zero {m : Machine α A R σ} (h : m.weight = 0) : m.pending = [] := by
  obtain ⟨pending, done, s⟩ := m
  cases pending with
  | nil => rfl
  | cons frame pending =>
    simp only [weight, List.map_cons, total_cons] at h
    cases frame with
    | enter e =>
      have hpos := nodeCount_pos e
      simp only [Frame.weight] at h
      omega
    | exit shell entered =>
      simp only [Frame.weight] at h
      omega

/-- Nothing is missing for what the machine does next. An exit finds a result for each child of its
node, in the order of the children, and a machine that has nothing to do has one result. -/
def Safe (m : Machine α A R σ) : Prop :=
  match m.pending with
  | [] => m.done.length = 1
  | .enter _ :: _ => True
  | .exit shell _ :: _ =>
    shell.arity ≤ m.done.length ∧
      ∃ node, shell.fill? (m.done.take shell.arity).reverse = some node ∧ node.shell = shell ∧
        node.children = (m.done.take shell.arity).reverse

variable (enter : Expr α → StateM σ A) (exit : A → Node R → StateM σ R)

/-- The next step. There is none if nothing is pending, and none if an exit finds too few
results. -/
def step? : Machine α A R σ → Option (Machine α A R σ)
  | ⟨[], _, _⟩ => none
  | ⟨.enter e :: pending, done, s⟩ =>
    some ⟨e.node.children.map .enter ++ .exit e.node.shell (enter e s).1 :: pending, done,
      (enter e s).2⟩
  | ⟨.exit shell entered :: pending, done, s⟩ =>
    (shell.fill? (done.take shell.arity).reverse).map fun node =>
      ⟨pending, (exit entered node s).1 :: done.drop shell.arity, (exit entered node s).2⟩

def steps? : Nat → Machine α A R σ → Option (Machine α A R σ)
  | 0, m     => some m
  | n + 1, m => (step? enter exit m).bind (steps? n)

def answer? (m : Machine α A R σ) : Option (R × σ) := run enter exit m.pending m.done m.state

/-- The answer stays the same from step to step. -/
theorem answer?_step? {m m' : Machine α A R σ} (h : step? enter exit m = some m') :
    m'.answer? enter exit = m.answer? enter exit := by
  obtain ⟨pending, done, s⟩ := m
  cases pending with
  | nil => cases h
  | cons frame pending =>
    cases frame with
    | enter e =>
      cases h
      rw [answer?, answer?, run]
      rfl
    | exit shell entered =>
      obtain ⟨node, hnode, rfl⟩ := Option.map_eq_some_iff.mp h
      rw [answer?, answer?, run, hnode]
      rfl

theorem answer?_steps? {n : Nat} {m m' : Machine α A R σ} (h : steps? enter exit n m = some m') :
    m'.answer? enter exit = m.answer? enter exit := by
  induction n generalizing m with
  | zero =>
    cases h
    rfl
  | succ n ih =>
    obtain ⟨next, hnext, h⟩ := Option.bind_eq_some_iff.mp h
    exact (ih h).trans (answer?_step? enter exit hnext)

/-! ## Balance -/

/-- Whether pending frames, worked off from so many results, find the results that they need and
leave exactly one. -/
def balanced : List (Frame α A) → Nat → Prop
  | [], n => n = 1
  | .enter _ :: pending, n => balanced pending (n + 1)
  | .exit shell _ :: pending, n => shell.arity ≤ n ∧ balanced pending (n - shell.arity + 1)

/-- The machine has the results that its pending frames need. -/
def Balanced (m : Machine α A R σ) : Prop := balanced m.pending m.done.length

/-- Visiting some trees first is having their results already. -/
theorem balanced_enter_append (es : List (Expr α)) (pending : List (Frame α A)) (n : Nat) :
    balanced (es.map .enter ++ pending) n ↔ balanced pending (n + es.length) := by
  induction es generalizing n with
  | nil => rfl
  | cons e es ih =>
    rw [List.map_cons, List.cons_append, balanced, ih, List.length_cons, Nat.add_right_comm,
      Nat.add_assoc]

theorem balanced_start (e : Expr α) (s : σ) : (start e s : Machine α A R σ).Balanced := rfl

/-- Balance looks at the next frame only as far as safety does. -/
theorem Balanced.safe {m : Machine α A R σ} (h : m.Balanced) : m.Safe := by
  obtain ⟨pending, done, s⟩ := m
  cases pending with
  | nil => exact h
  | cons frame pending =>
    cases frame with
    | enter e => trivial
    | exit shell entered =>
      have harity : shell.arity ≤ done.length := h.1
      have hlength : (done.take shell.arity).reverse.length = shell.arity := by
        rw [List.length_reverse, List.length_take]
        omega
      obtain ⟨node, hfill, hshell, hchildren⟩ := Node.fill?_of_arity_le (Nat.le_of_eq hlength.symm)
      rw [List.take_of_length_le (Nat.le_of_eq hlength)] at hchildren
      exact ⟨harity, node, hfill, hshell, hchildren⟩

/-- A balanced machine that is not done has a next step, stays balanced and has one step less to
do. -/
theorem exists_step? {m : Machine α A R σ} (h : m.Balanced) (hpending : m.pending ≠ []) :
    ∃ m', step? enter exit m = some m' ∧ m'.Balanced ∧ m'.weight + 1 = m.weight := by
  have hsafe := h.safe
  obtain ⟨pending, done, s⟩ := m
  cases pending with
  | nil => exact absurd rfl hpending
  | cons frame pending =>
    cases frame with
    | enter e =>
      refine ⟨_, rfl, ?_, ?_⟩
      · -- the children's visits leave one result each, which are what the exit takes
        have hrest : balanced pending (done.length + 1) := h
        show balanced (_ ++ _ :: pending) done.length
        rw [balanced_enter_append, balanced, Node.arity_shell, Node.length_children,
          Nat.add_sub_cancel]
        exact ⟨Nat.le_add_left _ _, hrest⟩
      · simp only [weight, List.map_append, List.map_map, List.map_cons, total_append, total_cons,
          Function.comp_def, Frame.weight, total_map_mul, nodeCount_eq e]
        omega
    | exit shell entered =>
      obtain ⟨harity, node, hfill, -, -⟩ := hsafe
      refine ⟨_, congrArg (Option.map _) hfill, ?_, ?_⟩
      · have hrest : balanced pending (done.length - shell.arity + 1) := h.2
        show balanced pending (_ :: done.drop shell.arity).length
        rwa [List.length_cons, List.length_drop]
      · simp only [weight, List.map_cons, total_cons, Frame.weight]
        omega

theorem Balanced.step? {m m' : Machine α A R σ} (h : m.Balanced)
    (hstep : Machine.step? enter exit m = some m') : m'.Balanced := by
  have hpending : m.pending ≠ [] := by
    intro hnil
    obtain ⟨pending, done, s⟩ := m
    obtain rfl : pending = [] := hnil
    cases hstep
  obtain ⟨next, hnext, hbalanced, -⟩ := exists_step? enter exit h hpending
  cases hstep.symm.trans hnext
  exact hbalanced

/-- Balance lasts. -/
theorem Balanced.steps? {n : Nat} {m m' : Machine α A R σ} (h : m.Balanced)
    (hsteps : Machine.steps? enter exit n m = some m') : m'.Balanced := by
  induction n generalizing m with
  | zero =>
    cases hsteps
    exact h
  | succ n ih =>
    obtain ⟨next, hnext, hsteps⟩ := Option.bind_eq_some_iff.mp hsteps
    exact ih (h.step? enter exit hnext) hsteps

/-- A balanced machine comes to its end, with one result, in as many steps as it has left. -/
theorem exists_end {m : Machine α A R σ} (h : m.Balanced) :
    ∃ result s, Machine.steps? enter exit m.weight m = some ⟨[], [result], s⟩ := by
  -- on the number of steps, for a step leaves one less
  induction hweight : m.weight generalizing m with
  | zero =>
    obtain ⟨pending, done, s⟩ := m
    obtain rfl : pending = [] := weight_eq_zero hweight
    obtain ⟨result, rfl⟩ := List.length_eq_one_iff.mp h
    exact ⟨result, s, rfl⟩
  | succ n ih =>
    have hpending : m.pending ≠ [] := by
      intro hnil
      rw [weight, hnil] at hweight
      cases hweight
    obtain ⟨next, hnext, hbalanced, hless⟩ := exists_step? enter exit h hpending
    obtain ⟨result, s, hend⟩ := ih hbalanced (by omega)
    refine ⟨result, s, ?_⟩
    rw [Machine.steps?, hnext]
    exact hend

end Machine

/-! ## Folds -/

variable {α A R σ : Type} (enter : Expr α → StateM σ A) (exit : A → Node R → StateM σ R)

/-- The recursion unfolds at the root, said by the list of children and by filling the shell. -/
theorem exists_visit (e : Expr α) (s : σ) :
    ∃ node, e.node.shell.fill? (e.node.children.mapM (visit enter exit) (enter e s).2).1 =
        some node ∧
      node.children = (e.node.children.mapM (visit enter exit) (enter e s).2).1 ∧
      visit enter exit e s =
        exit (enter e s).1 node (e.node.children.mapM (visit enter exit) (enter e s).2).2 := by
  refine ⟨(e.node.traverse (visit enter exit) (enter e s).2).1, ?_, ?_, ?_⟩
  · have hfill := Node.fill?_shell_children (e.node.traverse (visit enter exit) (enter e s).2).1 []
    rwa [List.append_nil, Node.shell_traverse, Node.children_traverse_fst] at hfill
  · exact Node.children_traverse_fst _ _ _
  · rw [visit_eq, ← Node.traverse_snd]
    rfl

/-- A fold by work-list gives the result and the state of the recursion, which enters the node,
visits the children in their order and exits with the node filled with their results. Whatever step
the machine has reached, nothing is missing for the next one and the answer is still that of the
fold. After two steps for each node nothing is pending and the one result is left. -/
theorem foldWith_steps (e : Expr α) (s : σ) :
    foldWith enter exit e s = visit enter exit e s ∧
      (∃ node, e.node.shell.fill? (e.node.children.mapM (visit enter exit) (enter e s).2).1 =
          some node ∧
        node.children = (e.node.children.mapM (visit enter exit) (enter e s).2).1 ∧
        visit enter exit e s =
          exit (enter e s).1 node (e.node.children.mapM (visit enter exit) (enter e s).2).2) ∧
      (∀ n m, Machine.steps? enter exit n (.start e s) = some m →
        m.Safe ∧ m.answer? enter exit = some (foldWith enter exit e s)) ∧
      Machine.steps? enter exit (2 * e.nodeCount) (.start e s) =
        some ⟨[], [(foldWith enter exit e s).1], (foldWith enter exit e s).2⟩ := by
  have hbalanced : (Machine.start e s : Machine α A R σ).Balanced := Machine.balanced_start e s
  have hanswer : (Machine.start e s).answer? enter exit = some (foldWith enter exit e s) := by
    rw [foldWith_eq_visit]
    exact run_eq_visit enter exit e s
  refine ⟨?_, exists_visit enter exit e s, ?_, ?_⟩
  · rw [foldWith_eq_visit]
  · intro n m hm
    exact ⟨(hbalanced.steps? enter exit hm).safe,
      (Machine.answer?_steps? enter exit hm).trans hanswer⟩
  · obtain ⟨result, s', hend⟩ := Machine.exists_end enter exit hbalanced
    have hfold : some (result, s') = some (foldWith enter exit e s) := by
      rw [← hanswer, ← Machine.answer?_steps? enter exit hend, Machine.answer?, run]
    rw [← Option.some.inj hfold]
    exact hend

/-- A base with a whole range and a range of two bounds. -/
def slice : Expr Unit :=
  ⟨(), .indexed ⟨(), .var "x"⟩ [.all, .between ⟨(), .var "a"⟩ ⟨(), .var "b"⟩]⟩

/-- Numbers the nodes of `slice` on entering and lists the numbers on exiting. After seven of eight
steps only the root is to be exited, and the results of its three children are there. -/
theorem foldWith_steps_slice :
    let number : Expr Unit → StateM Nat Nat := fun _ n => (n, n + 1)
    let list : Nat → Node (List Nat) → StateM Nat (List Nat) :=
      fun own node n => (own :: node.children.flatten, n)
    let last : Machine Unit Nat (List Nat) Nat := ⟨[.exit slice.node.shell 0], [[3], [2], [1]], 4⟩
    Machine.steps? number list 7 (.start slice 0) = some last ∧ last.Safe ∧
      foldWith number list slice 0 = ([0, 1, 2, 3], 4) := by
  intro number list last
  have hlast : Machine.steps? number list 7 (.start slice 0) = some last := rfl
  have hsteps := foldWith_steps number list slice 0
  refine ⟨hlast, (hsteps.2.2.1 7 last hlast).1, ?_⟩
  rw [hsteps.1]
  rfl

end Expr

end ModelForm
