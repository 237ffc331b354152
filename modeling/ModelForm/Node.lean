import ModelForm.Call
import ModelForm.Operator
import ModelForm.Total

/-!
# Nodes

One level of an expression, with children of any type: `Node γ`. A node whose children are of type
`Unit` is a *shell*: it has the form, names and texts of a node, and places for its children.

The operations on children all follow one order, from left to right with the base of an indexed node
before its bounds:

* `children` lists them and `arity` counts them,
* `map` and `traverse` visit them,
* `shell` forgets them, `split` detaches them and `fill?` puts new ones in their places.

The main statements say that these agree: `length_children`, `children_map`, `children_traverse`,
`shell_traverse`, and `fill?_shell_children`, by which a node is its shell and its children.
-/

namespace ModelForm

/-! ## Index bounds -/

/-- One place between the brackets of an indexed expression. -/
inductive Index (γ : Type) where
  /-- The whole range. -/
  | all
  /-- One position. -/
  | single (position : γ)
  /-- All positions from a lower bound. -/
  | upFrom (lower : γ)
  /-- The positions between two bounds. -/
  | between (lower upper : γ)
  /-- The positions that an array lists. -/
  | multiple (positions : γ)
  deriving DecidableEq, Repr

namespace Index

variable {γ δ : Type}

def children : Index γ → List γ
  | .all                 => []
  | .single position     => [position]
  | .upFrom lower        => [lower]
  | .between lower upper => [lower, upper]
  | .multiple positions  => [positions]

def arity : Index γ → Nat
  | .all        => 0
  | .between .. => 2
  | .single _ | .upFrom _ | .multiple _ => 1

def map (f : γ → δ) : Index γ → Index δ
  | .all                 => .all
  | .single position     => .single (f position)
  | .upFrom lower        => .upFrom (f lower)
  | .between lower upper => .between (f lower) (f upper)
  | .multiple positions  => .multiple (f positions)

/-- The index with each bound replaced by an action's result, from left to right. -/
def traverse {m : Type → Type v} [Monad m] (f : γ → m δ) : Index γ → m (Index δ)
  | .all                 => pure .all
  | .single position     => return .single (← f position)
  | .upFrom lower        => return .upFrom (← f lower)
  | .between lower upper => return .between (← f lower) (← f upper)
  | .multiple positions  => return .multiple (← f positions)

def rank : Index γ → Nat
  | .all        => 0
  | .single _   => 1
  | .upFrom _   => 2
  | .between .. => 3
  | .multiple _ => 4

end Index

/-! ## One level of an expression -/

/-- One level of an expression over children of type `γ`. -/
inductive Node (γ : Type) where
  | var (name : String)
  | literal (kind : LiteralKind) (text : String)
  | call (kind : CallKind) (name : String) (args : List γ)
  | conditional (test yes no : γ)
  | and (left right : γ)
  | or (left right : γ)
  | indexed (base : γ) (indices : List (Index γ))
  /-- A group: the inner expression in parentheses. -/
  | paren (inner : γ)
  deriving DecidableEq, Repr

/-- A node with places in place of children. -/
abbrev Shell := Node Unit

namespace Node

variable {γ δ : Type}

/-- The children from left to right, the base of an indexed node before its bounds. -/
def children : Node γ → List γ
  | .var _ | .literal ..       => []
  | .call _ _ args             => args
  | .conditional test yes no   => [test, yes, no]
  | .and left right            => [left, right]
  | .or left right             => [left, right]
  | .indexed base indices      => base :: indices.flatMap Index.children
  | .paren inner               => [inner]

def arity : Node γ → Nat
  | .var _ | .literal ..       => 0
  | .call _ _ args             => args.length
  | .conditional ..            => 3
  | .and .. | .or ..           => 2
  | .indexed _ indices         => 1 + total (indices.map Index.arity)
  | .paren _                   => 1

/-- Whether the node is of a form that never has children. A call without arguments is not. -/
def isLeaf : Node γ → Bool
  | .var _ | .literal .. => true
  | _                    => false

def map (f : γ → δ) : Node γ → Node δ
  | .var name                  => .var name
  | .literal kind text         => .literal kind text
  | .call kind name args       => .call kind name (args.map f)
  | .conditional test yes no   => .conditional (f test) (f yes) (f no)
  | .and left right            => .and (f left) (f right)
  | .or left right             => .or (f left) (f right)
  | .indexed base indices      => .indexed (f base) (indices.map (Index.map f))
  | .paren inner               => .paren (f inner)

/-- The node with each child replaced by an action's result, in the order of `children`. -/
def traverse {m : Type → Type v} [Monad m] (f : γ → m δ) : Node γ → m (Node δ)
  | .var name                  => pure (.var name)
  | .literal kind text         => pure (.literal kind text)
  | .call kind name args       => return .call kind name (← args.mapM f)
  | .conditional test yes no   => return .conditional (← f test) (← f yes) (← f no)
  | .and left right            => return .and (← f left) (← f right)
  | .or left right             => return .or (← f left) (← f right)
  | .indexed base indices      => return .indexed (← f base) (← indices.mapM (Index.traverse f))
  | .paren inner               => return .paren (← f inner)

/-! ## Names -/

/-- The operator that the node applies: a plain library call of an operator's function. -/
def operator? : Node γ → Option Operator
  | .call .library name _ => Operator.ofName? name
  | _                     => none

/-- Whether the surface form of the node has operands that may need grouping. -/
def isOperatorLike : Node γ → Bool
  | .conditional .. | .and .. | .or .. => true
  | n                                  => n.operator?.isSome

def callee? : Node γ → Option String
  | .call _ name _ => some name
  | _              => none

/-! ## Shells -/

/-- The node with places in place of its children. -/
def shell (n : Node γ) : Shell := n.map fun _ => ()

/-- Takes a node apart: its shell, and its children as a traversal meets them. -/
def split (n : Node γ) : Shell × List γ :=
  let detach (child : γ) : StateM (Array γ) Unit := modify (·.push child)
  let (shell, met) := (n.traverse detach).run #[]
  (shell, met.toList)

/-- Takes the next child from a supply. -/
def next : StateT (List γ) Option γ
  | []            => none
  | child :: rest => some (child, rest)

/-- The shell with its places taken by children from the front of a supply. A supply of more
children than places is fine; one of fewer is not. -/
def fill? (s : Shell) (supply : List γ) : Option (Node γ) :=
  ((s.traverse fun _ => next).run supply).map Prod.fst

/-- What is reported when `fill?` runs out of children. -/
def shortSupplyMessage : String :=
  "internal error: entered unreachable code: fewer children supplied than the node's arity"

end Node

/-! ## Agreement of the operations

The lemmas for one index come first, each with its lift to a list of indices. -/

section Traversals

variable {γ δ ε : Type} {m : Type → Type v} {k : Type → Type w}
variable [Monad m] [LawfulMonad m] [Monad k] [LawfulMonad k]

/-- A map between monads that keeps `pure` and `bind` keeps `mapM`. -/
theorem mapM_hom (φ : ∀ {β : Type}, m β → k β) (hpure : ∀ {β : Type} (b : β), φ (pure b) = pure b)
    (hbind : ∀ {β β' : Type} (x : m β) (f : β → m β'), φ (x >>= f) = φ x >>= fun b => φ (f b))
    (f : γ → m δ) (cs : List γ) : φ (cs.mapM f) = cs.mapM fun c => φ (f c) := by
  induction cs with
  | nil => simp only [List.mapM_nil, hpure]
  | cons c cs ih => simp only [List.mapM_cons, hbind, hpure, ih]

theorem mapM_congr {f g : γ → m δ} {cs : List γ} (h : ∀ c ∈ cs, f c = g c) :
    cs.mapM f = cs.mapM g := by
  induction cs with
  | nil => rfl
  | cons c cs ih =>
    rw [List.mapM_cons, List.mapM_cons, h c List.mem_cons_self,
      ih fun d hd => h d (List.mem_cons_of_mem c hd)]

namespace Index

@[simp] theorem length_children (i : Index γ) : i.children.length = i.arity := by
  cases i <;> rfl

@[simp] theorem children_map (f : γ → δ) (i : Index γ) :
    (i.map f).children = i.children.map f := by
  cases i <;> rfl

omit [LawfulMonad m] in
theorem traverse_map (g : γ → δ) (f : δ → m ε) (i : Index γ) :
    (i.map g).traverse f = i.traverse (f ∘ g) := by
  cases i <;> rfl

theorem traverse_congr {f g : γ → m δ} {i : Index γ} (h : ∀ c ∈ i.children, f c = g c) :
    i.traverse f = i.traverse g := by
  cases i <;> simp_all [traverse, children]

theorem traverse_pure (g : γ → δ) (i : Index γ) :
    (i.traverse fun c => pure (g c)) = (pure (i.map g) : m (Index δ)) := by
  cases i <;> simp [traverse, map]

omit [LawfulMonad m] [LawfulMonad k] in
theorem traverse_hom (φ : ∀ {β : Type}, m β → k β)
    (hpure : ∀ {β : Type} (b : β), φ (pure b) = pure b)
    (hbind : ∀ {β β' : Type} (x : m β) (f : β → m β'), φ (x >>= f) = φ x >>= fun b => φ (f b))
    (f : γ → m δ) (i : Index γ) : φ (i.traverse f) = i.traverse fun c => φ (f c) := by
  cases i <;> simp only [traverse, hbind, hpure]

/-- A traversal visits the bounds in the order of `children`. -/
theorem children_traverse (f : γ → m δ) (i : Index γ) :
    children <$> i.traverse f = i.children.mapM f := by
  cases i <;> simp [traverse, children]

theorem flatMap_children_mapM (f : γ → m δ) (is : List (Index γ)) :
    List.flatMap children <$> is.mapM (traverse f) = (is.flatMap children).mapM f := by
  induction is with
  | nil => simp
  | cons i is ih => simp [← ih, ← children_traverse]

end Index

namespace Node

@[simp] theorem length_children (n : Node γ) : n.children.length = n.arity := by
  cases n with
  | indexed base indices =>
    simp only [children, arity, List.length_cons, length_flatMap_eq_total, Index.length_children,
      Nat.add_comm]
  | _ => rfl

@[simp] theorem children_map (f : γ → δ) (n : Node γ) :
    (n.map f).children = n.children.map f := by
  cases n <;> simp [map, children, List.map_flatMap, List.flatMap_map]

@[simp] theorem arity_map (f : γ → δ) (n : Node γ) : (n.map f).arity = n.arity := by
  rw [← length_children, children_map, List.length_map, length_children]

@[simp] theorem arity_shell (n : Node γ) : n.shell.arity = n.arity := arity_map _ n

/-- Traversing a node whose children were replaced is traversing it with what replaces them. -/
theorem traverse_map (g : γ → δ) (f : δ → m ε) (n : Node γ) :
    (n.map g).traverse f = n.traverse (f ∘ g) := by
  cases n with
  | indexed base indices => simp [map, traverse, Index.traverse_map, Function.comp_def]
  | _ => simp [map, traverse]

/-- Only what an action does on the children matters to a traversal. -/
theorem traverse_congr {f g : γ → m δ} {n : Node γ} (h : ∀ c ∈ n.children, f c = g c) :
    n.traverse f = n.traverse g := by
  cases n with
  | call kind name args =>
    have hargs : args.mapM f = args.mapM g := mapM_congr h
    simp only [traverse, hargs]
  | indexed base indices =>
    have hbase : f base = g base := h base List.mem_cons_self
    have hindices : indices.mapM (Index.traverse f) = indices.mapM (Index.traverse g) :=
      mapM_congr fun i hi => Index.traverse_congr fun c hc =>
        h c (List.mem_cons_of_mem base (List.mem_flatMap_of_mem hi hc))
    simp only [traverse, hbase, hindices]
  | _ => simp_all [traverse, children]

theorem traverse_pure (g : γ → δ) (n : Node γ) :
    (n.traverse fun c => pure (g c)) = (pure (n.map g) : m (Node δ)) := by
  cases n with
  | indexed base indices =>
    have h : (Index.traverse fun c => pure (g c)) = fun i => (pure (i.map g) : m (Index δ)) :=
      funext (Index.traverse_pure g)
    simp [traverse, map, h]
  | _ => simp [traverse, map]

/-- A map between monads that keeps `pure` and `bind` keeps traversals. -/
theorem traverse_hom (φ : ∀ {β : Type}, m β → k β)
    (hpure : ∀ {β : Type} (b : β), φ (pure b) = pure b)
    (hbind : ∀ {β β' : Type} (x : m β) (f : β → m β'), φ (x >>= f) = φ x >>= fun b => φ (f b))
    (f : γ → m δ) (n : Node γ) : φ (n.traverse f) = n.traverse fun c => φ (f c) := by
  cases n <;>
    simp only [traverse, hbind, hpure, mapM_hom φ hpure hbind, Index.traverse_hom φ hpure hbind]

/-- A traversal visits the children in the order of `children`. -/
theorem children_traverse (f : γ → m δ) (n : Node γ) :
    children <$> n.traverse f = n.children.mapM f := by
  cases n with
  | indexed base indices => simp [traverse, children, ← Index.flatMap_children_mapM]
  | _ => simp [traverse, children]

end Node

theorem isSome_mapM_id {cs : List (Option γ)} (h : ∀ c ∈ cs, c.isSome) : (cs.mapM id).isSome := by
  induction cs with
  | nil => rfl
  | cons c cs ih =>
    obtain ⟨b, rfl⟩ := Option.isSome_iff_exists.mp (h c List.mem_cons_self)
    obtain ⟨bs, hbs⟩ := Option.isSome_iff_exists.mp (ih fun d hd => h d (List.mem_cons_of_mem _ hd))
    rw [List.mapM_cons, hbs]
    rfl

/-- A node whose children are all there is there. -/
theorem Node.isSome_traverse_id {n : Node (Option γ)} (h : ∀ c ∈ n.children, c.isSome) :
    (n.traverse id).isSome := by
  rw [← Option.isSome_map (f := children), ← Option.map_eq_map, children_traverse]
  exact isSome_mapM_id h

end Traversals

/-! ## Shells and traversals -/

variable {γ δ σ : Type}

namespace Index

theorem map_unit_traverse (f : γ → StateM σ δ) (i : Index γ) (s : σ) :
    (i.traverse f s).1.map (fun _ => ()) = i.map fun _ => () := by
  cases i <;> rfl

theorem map_unit_mapM (f : γ → StateM σ δ) (is : List (Index γ)) (s : σ) :
    (is.mapM (traverse f) s).1.map (map fun _ => ()) = is.map (map fun _ => ()) := by
  induction is generalizing s with
  | nil => rfl
  | cons i is ih =>
    rw [List.mapM_cons]
    exact congr (congrArg List.cons (map_unit_traverse f i s)) (ih _)

end Index

namespace Node

theorem map_unit_mapM (f : γ → StateM σ δ) (cs : List γ) (s : σ) :
    (cs.mapM f s).1.map (fun _ => ()) = cs.map fun _ => () := by
  induction cs generalizing s with
  | nil => rfl
  | cons c cs ih =>
    rw [List.mapM_cons]
    exact congrArg (List.cons ()) (ih _)

/-- A traversal keeps the shell. -/
theorem shell_traverse (f : γ → StateM σ δ) (n : Node γ) (s : σ) :
    (n.traverse f s).1.shell = n.shell := by
  cases n with
  | call kind name args => exact congrArg (Node.call kind name) (map_unit_mapM f args s)
  | indexed base indices => exact congrArg (Node.indexed ()) (Index.map_unit_mapM f indices _)
  | _ => rfl

theorem children_traverse_fst (f : γ → StateM σ δ) (n : Node γ) (s : σ) :
    (n.traverse f s).1.children = (n.children.mapM f s).1 := by
  rw [← children_traverse]; rfl

theorem traverse_snd (f : γ → StateM σ δ) (n : Node γ) (s : σ) :
    (n.traverse f s).2 = (n.children.mapM f s).2 := by
  rw [← children_traverse]; rfl

end Node

/-! ## Refilling -/

namespace Node

@[simp] theorem run_next_cons (child : γ) (rest : List γ) :
    (next : StateT (List γ) Option γ).run (child :: rest) = some (child, rest) := rfl

end Node

namespace Index

theorem traverse_next (i : Index γ) (rest : List γ) :
    ((i.map fun _ => ()).traverse fun _ => Node.next).run (i.children ++ rest) =
      some (i, rest) := by
  cases i <;> simp [map, traverse, children]

theorem mapM_traverse_next (is : List (Index γ)) (rest : List γ) :
    ((is.map (map fun _ => ())).mapM (traverse fun _ => Node.next)).run
      (is.flatMap children ++ rest) = some (is, rest) := by
  induction is generalizing rest with
  | nil => rfl
  | cons i is ih =>
    simp only [List.map_cons, List.mapM_cons, bind_pure_comp, List.flatMap_cons, List.append_assoc,
      StateT.run_bind, traverse_next, StateT.run_map, Option.map_eq_map, Option.bind_eq_bind,
      Option.bind_some, ih, Option.map_some]

end Index

namespace Node

theorem mapM_next (cs : List γ) (rest : List γ) :
    ((cs.map fun _ => ()).mapM fun _ => next).run (cs ++ rest) = some (cs, rest) := by
  induction cs generalizing rest with
  | nil => rfl
  | cons c cs ih =>
    simp only [List.map_cons, List.mapM_cons, bind_pure_comp, List.cons_append, StateT.run_bind,
      run_next_cons, StateT.run_map, Option.map_eq_map, Option.bind_eq_bind, Option.bind_some, ih,
      Option.map_some]

/-- A shell takes exactly its node's children from a supply. -/
theorem traverse_next (n : Node γ) (rest : List γ) :
    (n.shell.traverse fun _ => next).run (n.children ++ rest) = some (n, rest) := by
  cases n with
  | call kind name args =>
    simp only [shell, map, traverse, children, bind_pure_comp, StateT.run_map, mapM_next,
      Option.map_eq_map, Option.map_some]
  | indexed base indices =>
    simp only [shell, map, traverse, children, bind_pure_comp, List.cons_append, StateT.run_bind,
      run_next_cons, StateT.run_map, Index.mapM_traverse_next, Option.map_eq_map,
      Option.bind_eq_bind, Option.bind_some, Option.map_some]
  | _ => simp [shell, map, traverse, children]

/-- A node is its shell filled with its children. -/
@[simp] theorem fill?_shell_children (n : Node γ) (rest : List γ) :
    n.shell.fill? (n.children ++ rest) = some n := by
  rw [fill?, traverse_next]; rfl

end Node

end ModelForm
