import ModelForm.Expr

/-!
# Folding expressions

A fold visits every node twice: `enter` runs before the children of a node are visited, `exit` runs
after, with what `enter` gave and the children's results in their places. Both may use a state, and
children are visited from left to right.

* `Expr.visit` says this by recursion.
* `Expr.run` is the machine that does it on deep trees: a list of pending frames and a list of
  finished results, the latest first.
* `Expr.foldWith` is the machine's answer. `run_enter` relates machine and recursion for any pending
  work, and `foldWith_eq_visit` says that they agree: the machine always ends with one result.
-/

namespace ModelForm

namespace Expr

variable {α A R σ : Type}

/-! ## Specification -/

/-- Enter the node, visit its children from left to right, exit with their results. -/
def visit (enter : Expr α → StateM σ A) (exit : A → Node R → StateM σ R) : Expr α → StateM σ R :=
  para fun e visits => do
    let entered ← enter e
    let results ← visits.traverse id
    exit entered results

theorem visit_eq (enter : Expr α → StateM σ A) (exit : A → Node R → StateM σ R) (e : Expr α) :
    visit enter exit e = (do
      let entered ← enter e
      let results ← e.node.traverse (visit enter exit)
      exit entered results) := by
  rw [visit, para_eq, Node.traverse_map]
  rfl

/-! ## Machine -/

/-- A step that is still to be done. -/
inductive Frame (α A : Type) where
  /-- Visit the tree. -/
  | enter (e : Expr α)
  /-- Exit a node of the given shell, whose children's results are the latest ones. -/
  | exit (shell : Shell) (entered : A)

/-- A bound on the number of steps that a frame gives rise to. -/
def Frame.weight : Frame α A → Nat
  | .enter e => 2 * e.nodeCount
  | .exit .. => 1

/-- Works off the pending frames. The answer is the only result that is left at the end. -/
def run (enter : Expr α → StateM σ A) (exit : A → Node R → StateM σ R) :
    List (Frame α A) → List R → σ → Option (R × σ)
  | [], [result], s => some (result, s)
  | [], _, _ => none
  | .enter e :: pending, done, s =>
    let (entered, s) := enter e s
    run enter exit (e.node.children.map .enter ++ .exit e.node.shell entered :: pending) done s
  | .exit shell entered :: pending, done, s =>
    match shell.fill? (done.take shell.arity).reverse with
    | none => none
    | some node =>
      let (result, s) := exit entered node s
      run enter exit pending (result :: done.drop shell.arity) s
termination_by pending => total (pending.map Frame.weight)
decreasing_by
  · simp only [List.map_append, List.map_map, List.map_cons, total_append, total_cons,
      Function.comp_def, Frame.weight, total_map_mul, nodeCount_eq e]
    omega
  · simp only [List.map_cons, total_cons, Frame.weight]
    omega

/-! ## Machine and recursion -/

variable (enter : Expr α → StateM σ A) (exit : A → Node R → StateM σ R)

/-- Once the children's results are there, exiting a node uses up exactly these. -/
theorem run_exit (n : Node (Expr α)) (entered : A) (pending : List (Frame α A)) (done : List R)
    (s : σ) :
    run enter exit (.exit n.shell entered :: pending)
        ((n.children.mapM (visit enter exit) s).1.reverse ++ done)
        (n.children.mapM (visit enter exit) s).2 =
      let exited := (n.traverse (visit enter exit) >>= exit entered) s
      run enter exit pending (exited.1 :: done) exited.2 := by
  have hlength : n.shell.arity = (n.children.mapM (visit enter exit) s).1.reverse.length := by
    rw [← Node.children_traverse_fst, List.length_reverse, Node.length_children,
      ← Node.shell_traverse (visit enter exit) n s, Node.arity_shell]
  have hfill : n.shell.fill? (n.children.mapM (visit enter exit) s).1 =
      some (n.traverse (visit enter exit) s).1 := by
    have h := Node.fill?_shell_children (n.traverse (visit enter exit) s).1 []
    rwa [List.append_nil, Node.shell_traverse, Node.children_traverse_fst] at h
  rw [run, hlength, List.take_left, List.reverse_reverse, hfill, List.drop_left,
    ← Node.traverse_snd]
  rfl

/-- Visiting a tree before any pending work is visiting it by recursion and keeping its result. -/
theorem run_enter (e : Expr α) (pending : List (Frame α A)) (done : List R) (s : σ) :
    run enter exit (.enter e :: pending) done s =
      run enter exit pending ((visit enter exit e s).1 :: done) (visit enter exit e s).2 := by
  induction e using induct generalizing pending done s with
  | step e ih =>
    have hlist : ∀ es : List (Expr α), (∀ c ∈ es, c ∈ e.node.children) →
        ∀ (pending : List (Frame α A)) (done : List R) (s : σ),
        run enter exit (es.map .enter ++ pending) done s =
          run enter exit pending ((es.mapM (visit enter exit) s).1.reverse ++ done)
            (es.mapM (visit enter exit) s).2 := by
      intro es
      induction es with
      | nil => intro _ pending done s; rfl
      | cons c es ihes =>
        intro hmem pending done s
        rw [List.map_cons, List.cons_append, ih c (hmem c List.mem_cons_self),
          ihes fun d hd => hmem d (List.mem_cons_of_mem c hd), List.mapM_cons]
        show _ = run enter exit pending ((_ :: _).reverse ++ done) _
        rw [List.reverse_cons, List.append_assoc]
        rfl
    rw [run]
    show run enter exit (_ ++ .exit e.node.shell (enter e s).1 :: pending) done (enter e s).2 = _
    rw [hlist _ fun c hc => hc, run_exit, visit_eq]
    rfl

/-- The machine's answer on one tree. -/
theorem run_eq_visit (e : Expr α) (s : σ) :
    run enter exit [.enter e] [] s = some (visit enter exit e s) := by
  rw [run_enter, run]
  rfl

/-! ## Folds -/

/-- The result of a fold and the state that it leaves. -/
def foldWith (e : Expr α) : StateM σ R := fun s =>
  (run enter exit [.enter e] [] s).get (by rw [run_eq_visit]; rfl)

/-- The machine does what the recursion says, on every tree, for every state. -/
theorem foldWith_eq_visit (e : Expr α) : foldWith enter exit e = visit enter exit e := by
  funext s
  simp only [foldWith, run_eq_visit, Option.get_some]

theorem foldWith_eq (e : Expr α) :
    foldWith enter exit e = (do
      let entered ← enter e
      let results ← e.node.traverse (foldWith enter exit)
      exit entered results) := by
  rw [foldWith_eq_visit, visit_eq, funext (foldWith_eq_visit enter exit)]

/-- The fold without effects: the result at a node from its annotation and the results at its
children. -/
def fold (f : α → Node R → R) (e : Expr α) : R :=
  (foldWith (fun e => pure e.note) (fun note results => pure (f note results)) e ()).1

theorem foldWith_pure (f : α → Node R → R) (e : Expr α) :
    foldWith (fun e => pure e.note) (fun note results => pure (f note results)) e =
      (pure (e.para fun e results => f e.note results) : StateM σ R) := by
  induction e using induct with
  | step e ih => rw [foldWith_eq, Node.traverse_congr ih, Node.traverse_pure, para_eq]; rfl

/-- A fold unfolds at the root. -/
theorem fold_eq (f : α → Node R → R) (e : Expr α) : e.fold f = f e.note (e.node.map (fold f)) := by
  have h : fold f = para fun e results => f e.note results := by
    funext e
    rw [fold, foldWith_pure]
    rfl
  rw [h, para_eq]

end Expr

end ModelForm
