import ModelForm.Proofs.Ordering
import ModelForm.Proofs.WorkList

/-!
# Operations on one level

The operations on the children of a node list them, count them, visit them, detach them and put new
ones in their places. Each goes through the forms by itself, and all of them have to find the same
children in the same order.

* `Node.split_eq` — a node comes apart into its shell and its children.
* `Node.run_traverse_next_eq_some_iff` — what a shell takes from a supply, and what it leaves.
* `Node.Key` — what is to be said of a node besides its children.
* `Node.eq_iff_key`, `Node.isEqv_iff` — nodes are equal if their keys and children are, whatever
  equality the children have.
* `Node.operations_agree` — all of this.
-/

namespace ModelForm

variable {γ : Type}

namespace Node

/-! ## Taking apart -/

/-- A shell has nothing to forget. -/
theorem shell_eq_self (s : Shell) : s.shell = s := map_id s

theorem mapM_push (cs : List γ) (met : Array γ) :
    (cs.mapM (fun c => (modify (·.push c) : StateM (Array γ) Unit)) met).2.toList =
      met.toList ++ cs := by
  induction cs generalizing met with
  | nil => exact (List.append_nil _).symm
  | cons c cs ih =>
    rw [List.mapM_cons]
    exact (ih (met.push c)).trans (by simp)

theorem split_eq (n : Node γ) : n.split = (n.shell, n.children) := by
  apply Prod.ext
  · exact (shell_eq_self _).symm.trans (shell_traverse _ n #[])
  · have hmet := congrArg Array.toList
      (traverse_snd (fun c => (modify (·.push c) : StateM (Array γ) Unit)) n #[])
    exact hmet.trans (mapM_push n.children #[])

/-! ## Filling -/

theorem of_mapM_next {places : List Unit} {supply cs rest : List γ}
    (h : (places.mapM fun _ => next).run supply = some (cs, rest)) :
    cs.length = places.length ∧ cs ++ rest = supply := by
  induction places generalizing supply cs with
  | nil =>
    cases h
    exact ⟨rfl, rfl⟩
  | cons place places ih =>
    cases supply with
    | nil => cases h
    | cons c supply =>
      simp only [List.mapM_cons, bind_pure_comp, StateT.run_bind, run_next_cons, StateT.run_map,
        Option.bind_eq_bind, Option.bind_some, Option.map_eq_map, Option.map_eq_some_iff] at h
      obtain ⟨⟨ds, left⟩, hrun, hresult⟩ := h
      cases hresult
      obtain ⟨hlength, hsupply⟩ := ih hrun
      exact ⟨congrArg Nat.succ hlength, congrArg (List.cons c) hsupply⟩

/-- A shell takes the children of the node that it becomes from the front of a supply, and leaves
the rest. -/
theorem run_traverse_next_eq_some_iff {s : Shell} {supply rest : List γ} {n : Node γ} :
    (s.traverse fun _ => next).run supply = some (n, rest) ↔
      n.shell = s ∧ n.children ++ rest = supply := by
  constructor
  · intro h
    have hrun := congrArg (StateT.run · supply)
      (children_traverse (m := StateT (List γ) Option) (fun _ => next) s)
    simp only [StateT.run_map, h, Option.map_eq_map, Option.map_some] at hrun
    obtain ⟨hlength, hsupply⟩ := of_mapM_next hrun.symm
    -- The same supply fills the shell to a node that is known to have it.
    obtain ⟨filled, rfl, hchildren⟩ := exists_of_children s (hlength.trans (length_children s))
    have hfilled := traverse_next filled rest
    rw [hchildren, hsupply, h] at hfilled
    cases hfilled
    exact ⟨rfl, hsupply⟩
  · rintro ⟨rfl, rfl⟩
    exact traverse_next n rest

theorem fill?_eq_some_iff {s : Shell} {supply : List γ} {n : Node γ} :
    s.fill? supply = some n ↔
      s.arity ≤ supply.length ∧ n.split = (s, supply.take s.arity) := by
  rw [split_eq, Prod.mk.injEq]
  constructor
  · intro h
    obtain ⟨⟨n, rest⟩, hrun, rfl⟩ := Option.map_eq_some_iff.mp h
    obtain ⟨rfl, rfl⟩ := run_traverse_next_eq_some_iff.mp hrun
    rw [arity_shell, ← length_children, List.length_append, List.take_left]
    exact ⟨Nat.le_add_right .., rfl, rfl⟩
  · rintro ⟨-, rfl, hchildren⟩
    have hfill := fill?_shell_children n (supply.drop n.shell.arity)
    rwa [hchildren, List.take_append_drop] at hfill

/-- Filling fails exactly if there are fewer children than places. -/
theorem fill?_eq_none_iff {s : Shell} {supply : List γ} :
    s.fill? supply = none ↔ supply.length < s.arity := by
  constructor
  · intro h
    apply Nat.lt_of_not_le
    intro harity
    obtain ⟨n, hfill, -⟩ := fill?_of_arity_le harity
    rw [h] at hfill
    cases hfill
  · intro h
    cases hfill : s.fill? supply with
    | none => rfl
    | some n => exact absurd (fill?_eq_some_iff.mp hfill).1 (Nat.not_le_of_lt h)

end Node

/-! ## Keys -/

inductive IndexKind where
  | all
  | single
  | upFrom
  | between
  | multiple
  deriving DecidableEq, Repr

/-- The form with places for its bounds. -/
def IndexKind.index : IndexKind → Index Unit
  | .all      => .all
  | .single   => .single ()
  | .upFrom   => .upFrom ()
  | .between  => .between () ()
  | .multiple => .multiple ()

def Index.kind : Index γ → IndexKind
  | .all        => .all
  | .single _   => .single
  | .upFrom _   => .upFrom
  | .between .. => .between
  | .multiple _ => .multiple

theorem Index.index_kind (i : Index γ) : i.kind.index = i.map fun _ => () := by
  cases i <;> rfl

theorem Index.kind_map {δ : Type} (f : γ → δ) (i : Index γ) : (i.map f).kind = i.kind := by
  cases i <;> rfl

theorem Index.length_children_of_kind {i j : Index γ} (h : i.kind = j.kind) :
    i.children.length = j.children.length := by
  cases i <;> cases j <;> first | rfl | cases h

namespace Node

/-- All about a node except its children. A call says how many arguments it has, and an indexed node
of what forms its indices are. -/
inductive Key where
  | var (name : String)
  | literal (kind : LiteralKind) (text : String)
  | call (kind : CallKind) (name : String) (arity : Nat)
  | conditional
  | and
  | or
  | indexed (kinds : List IndexKind)
  | paren
  deriving DecidableEq, Repr

def Key.shell : Key → Shell
  | .var name             => .var name
  | .literal kind text    => .literal kind text
  | .call kind name arity => .call kind name (List.replicate arity ())
  | .conditional          => .conditional () () ()
  | .and                  => .and () ()
  | .or                   => .or () ()
  | .indexed kinds        => .indexed () (kinds.map IndexKind.index)
  | .paren                => .paren ()

def key : Node γ → Key
  | .var name            => .var name
  | .literal kind text   => .literal kind text
  | .call kind name args => .call kind name args.length
  | .conditional ..      => .conditional
  | .and ..              => .and
  | .or ..               => .or
  | .indexed _ indices   => .indexed (indices.map Index.kind)
  | .paren _             => .paren

theorem shell_key (n : Node γ) : n.key.shell = n.shell := by
  cases n with
  | call kind name args =>
    exact congrArg (Node.call kind name) (map_unit_eq_of_length (by simp)).symm
  | indexed base indices =>
    simp only [key, Key.shell, shell, map, List.map_map]
    exact congrArg (Node.indexed ()) (List.map_congr_left fun i _ => i.index_kind)
  | _ => rfl

theorem key_shell (n : Node γ) : n.shell.key = n.key := by
  cases n with
  | indexed base indices => simp [shell, map, key, Index.kind_map]
  | _ => simp [shell, map, key]

/-- A key says as much as a shell. -/
theorem key_eq_iff {δ : Type} {m : Node γ} {n : Node δ} :
    m.key = n.key ↔ m.shell = n.shell := by
  constructor
  · intro h
    rw [← shell_key m, h, shell_key]
  · intro h
    rw [← key_shell m, h, key_shell]

theorem eq_iff_key {m n : Node γ} : m = n ↔ m.key = n.key ∧ m.children = n.children := by
  constructor
  · rintro rfl
    exact ⟨rfl, rfl⟩
  · rintro ⟨hkey, hchildren⟩
    exact ext_of_shell (key_eq_iff.mp hkey) hchildren

end Node

/-! ## Equality over an equality of children -/

theorem length_of_isEqv {as bs : List γ} {eq : γ → γ → Bool} (h : as.isEqv bs eq) :
    as.length = bs.length := by
  rw [List.isEqv_eq_decide] at h
  by_cases hlength : as.length = bs.length
  · exact hlength
  · simp [hlength] at h

theorem isEqv_append {as as' bs bs' : List γ} {eq : γ → γ → Bool} (h : as.length = bs.length) :
    (as ++ as').isEqv (bs ++ bs') eq = (as.isEqv bs eq && as'.isEqv bs' eq) := by
  induction as generalizing bs with
  | nil =>
    obtain rfl := List.eq_nil_of_length_eq_zero h.symm
    rfl
  | cons a as ih =>
    cases bs with
    | nil => cases h
    | cons b bs =>
      simp only [List.cons_append, List.isEqv_cons_cons, ih (Nat.succ.inj h), Bool.and_assoc]

namespace Index

def isEqv : Index γ → Index γ → (γ → γ → Bool) → Bool
  | .all, .all, _                                    => true
  | .single position, .single position', eq          => eq position position'
  | .upFrom lower, .upFrom lower', eq                => eq lower lower'
  | .between lower upper, .between lower' upper', eq => eq lower lower' && eq upper upper'
  | .multiple positions, .multiple positions', eq    => eq positions positions'
  | _, _, _                                          => false

theorem isEqv_iff {i j : Index γ} {eq : γ → γ → Bool} :
    i.isEqv j eq ↔ i.kind = j.kind ∧ i.children.isEqv j.children eq := by
  cases i <;> cases j <;> simp [isEqv, kind, children, List.isEqv_cons_cons]

theorem isEqv_list_iff {is js : List (Index γ)} {eq : γ → γ → Bool} :
    (is.isEqv js fun i j => i.isEqv j eq) ↔
      is.map kind = js.map kind ∧ (is.flatMap children).isEqv (js.flatMap children) eq := by
  induction is generalizing js with
  | nil => cases js <;> simp
  | cons i is ih =>
    cases js with
    | nil => simp
    | cons j js =>
      rw [List.isEqv_cons_cons, Bool.and_eq_true, isEqv_iff, ih, List.map_cons, List.map_cons,
        List.cons.injEq, List.flatMap_cons, List.flatMap_cons]
      -- Only indices of one form have equally many bounds, which is what splits the comparison.
      by_cases hkind : i.kind = j.kind
      · rw [isEqv_append (length_children_of_kind hkind), Bool.and_eq_true]
        exact and_and_and_comm
      · simp [hkind]

end Index

namespace Node

def isEqv : Node γ → Node γ → (γ → γ → Bool) → Bool
  | .var name, .var name', _ => name == name'
  | .literal kind text, .literal kind' text', _ => kind == kind' && text == text'
  | .call kind name args, .call kind' name' args', eq =>
    kind == kind' && name == name' && args.isEqv args' eq
  | .conditional test yes no, .conditional test' yes' no', eq =>
    eq test test' && eq yes yes' && eq no no'
  | .and left right, .and left' right', eq => eq left left' && eq right right'
  | .or left right, .or left' right', eq => eq left left' && eq right right'
  | .indexed base indices, .indexed base' indices', eq =>
    eq base base' && indices.isEqv indices' fun i j => i.isEqv j eq
  | .paren inner, .paren inner', eq => eq inner inner'
  | _, _, _ => false

theorem isEqv_iff {m n : Node γ} {eq : γ → γ → Bool} :
    m.isEqv n eq ↔ m.key = n.key ∧ m.children.isEqv n.children eq := by
  cases m with
  | call kind name args =>
    cases n with
    | call kind' name' args' =>
      have hlength : args.isEqv args' eq → args.length = args'.length := length_of_isEqv
      simp only [isEqv, key, children, Bool.and_eq_true, beq_iff_eq, Key.call.injEq]
      grind
    | _ => simp [isEqv, key]
  | indexed base indices =>
    cases n with
    | indexed base' indices' =>
      simp only [isEqv, key, children, Bool.and_eq_true, Key.indexed.injEq, List.isEqv_cons_cons,
        Index.isEqv_list_iff]
      exact and_left_comm
    | _ => simp [isEqv, key]
  | _ => cases n <;> simp [isEqv, key, children, List.isEqv_cons_cons, and_assoc]

/-! ## Agreement -/

/-- All operations find the same children of a node, in the same order. -/
structure InOrder (n : Node γ) : Prop where
  /-- A visitor meets the children from left to right, and its answers take their places. -/
  visits {δ σ : Type} (f : γ → StateM σ δ) (state : σ) :
    ((n.traverse f state).1.children, (n.traverse f state).2) = n.children.mapM f state
  /-- A visitor changes nothing but the children. -/
  keeps {δ σ : Type} (f : γ → StateM σ δ) (state : σ) : (n.traverse f state).1.key = n.key
  /-- A visitor without effects is a map. -/
  maps {δ σ : Type} (f : γ → δ) (state : σ) :
    n.traverse (fun c => (pure (f c) : StateM σ δ)) state = (n.map f, state)
  counts : n.children.length = n.arity
  detaches : n.split = (n.shell, n.children)
  restores : n.split.1.fill? n.split.2 = some n

/-- A shell takes as many children from a supply as it has places, if there are that many. -/
structure Fills (s : Shell) (supply : List γ) : Prop where
  some_iff (n : Node γ) : s.fill? supply = some n ↔
    s.arity ≤ supply.length ∧ n.split = (s, supply.take s.arity)
  none_iff : s.fill? supply = none ↔ supply.length < s.arity
  /-- What is not taken is left. -/
  leaves_iff (n : Node γ) (rest : List γ) : (s.traverse fun _ => next).run supply = some (n, rest) ↔
    n.split.1 = s ∧ n.split.2 ++ rest = supply

/-- Nodes are told apart by their keys and children, and shells by their keys. -/
structure Compared (m n : Node γ) : Prop where
  eq_iff : m = n ↔ m.key = n.key ∧ m.children = n.children
  isEqv_iff (eq : γ → γ → Bool) :
    m.isEqv n eq ↔ m.key = n.key ∧ m.children.isEqv n.children eq
  beq_shell_iff : m.shell == n.shell ↔ m.key = n.key
  compare_shell_iff : compare m.shell n.shell = .eq ↔ m.key = n.key

/-- **Agreement of the operations on one level.** Listing, counting, visiting and detaching find the
same children in the same order. A shell is filled from any supply that is long enough, with the
front of it, and from no other. Nodes are equal if and only if their keys and their children are. -/
theorem operations_agree (γ : Type) :
    (∀ n : Node γ, n.InOrder) ∧ (∀ (s : Shell) (supply : List γ), s.Fills supply) ∧
      ∀ m n : Node γ, m.Compared n := by
  refine ⟨?_, ?_, ?_⟩
  · intro n
    refine ⟨?_, ?_, ?_, length_children n, split_eq n, ?_⟩
    · intro δ σ f state
      exact Prod.ext (children_traverse_fst f n state) (traverse_snd f n state)
    · intro δ σ f state
      exact key_eq_iff.mpr (shell_traverse f n state)
    · intro δ σ f state
      rw [traverse_pure]
      rfl
    · have hfill := fill?_shell_children n []
      rw [List.append_nil] at hfill
      rw [split_eq]
      exact hfill
  · intro s supply
    refine ⟨fun n => fill?_eq_some_iff, fill?_eq_none_iff, ?_⟩
    intro n rest
    rw [split_eq]
    exact run_traverse_next_eq_some_iff
  · intro m n
    refine ⟨eq_iff_key, fun eq => isEqv_iff, ?_, ?_⟩
    · rw [beq_iff_eq, key_eq_iff]
    · rw [Std.LawfulEqOrd.compare_eq_iff_eq, key_eq_iff]

end Node

end ModelForm
