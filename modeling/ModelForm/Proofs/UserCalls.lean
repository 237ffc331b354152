import ModelForm.Build
import ModelForm.Proofs.Retagging

/-!
# Calls of the program's own functions

What the program provides itself may have any name, also that of a deprecated library function.
Modernizing and building leave such calls alone, with one exception: a call without arguments that
is named `get_lp` and is applied conditionally counts as a read of the log density, whoever provides
the function. After repair there is no such call, since the name is not that of a density.

Modernizing gives the test of a choice a group of its own, so what stands in a test is found one
level further down. `Expr.placeAfter` follows places through that.

* `Expr.descend?_modernize` — every tree is modernized in its place.
* `Expr.user_calls_kept` — which calls are left alone.
-/

namespace ModelForm

def Node.isChoice {γ : Type} : Node γ → Bool
  | .call kind name args => name == "if_else" && kind.isLibrary && args.length == 3
  | _                    => false

namespace CallKind

theorem isLibrary_of_user {kind : CallKind} (h : kind.origin? = some .user) :
    kind.isLibrary = false := by
  rw [isLibrary, h]
  rfl

theorem eq_conditional_of_user {kind : CallKind} (h : kind.origin? = some .user)
    (hplain : kind ≠ .user) : kind = .conditional .user := by
  cases kind with
  | user => exact absurd rfl hplain
  | conditional origin => exact congrArg conditional (Option.some.inj h)
  | _ => cases h

end CallKind

namespace Expr

variable {α : Type}

/-! ## Places -/

/-- The place to which modernizing moves what stands at a place. -/
def placeAfter (e : Expr α) : List Nat → List Nat
  | []        => []
  | i :: path =>
    let below := (e.node.children[i]?.map fun c => c.placeAfter path).getD path
    -- the test of a choice is in a group afterwards
    if e.node.isChoice && i == 0 then 0 :: 0 :: below else i :: below

/-- A choice becomes a conditional with its test in a group. -/
theorem value_modernCall_choice (table : DeprecationTable) {kind : CallKind} {name : String}
    {args : List (Expr α)} (h : (Node.call kind name args).isChoice = true) :
    ∃ test yes no, args = [test, yes, no] ∧ (modernCall table kind name args).value =
      .conditional ⟨test.note, .paren test⟩ yes no := by
  simp only [Node.isChoice, Bool.and_eq_true, beq_iff_eq] at h
  obtain ⟨⟨rfl, hlibrary⟩, hlength⟩ := h
  match args, hlength with
  | [test, yes, no], _ => exact ⟨test, yes, no, rfl, by simp [modernCall, hlibrary]⟩

/-- Any other call stays a call of the same arguments. -/
theorem value_modernCall_call (table : DeprecationTable) {kind : CallKind} {name : String}
    {args : List (Expr α)} (h : (Node.call kind name args).isChoice = false) :
    ∃ newKind newName, (modernCall table kind name args).value = .call newKind newName args := by
  unfold modernCall
  split
  · next hname =>
    obtain ⟨rfl, hlibrary⟩ := hname
    split
    · simp [Node.isChoice, hlibrary] at h
    · exact ⟨kind, "if_else", rfl⟩
  · split
    · exact ⟨.internal, "target", rfl⟩
    · split
      · next newKind newName _ => exact ⟨newKind, newName, rfl⟩
      · exact ⟨kind, name, rfl⟩

/-- Unless the root is a choice, the children are modernized in their places. -/
theorem children_modernize (table : DeprecationTable) {e : Expr α} (h : e.node.isChoice = false) :
    (e.modernize table).value.node.children =
      e.node.children.map fun c => (c.modernize table).value := by
  rw [value_modernize, ← Node.children_map]
  obtain ⟨note, node⟩ := e
  cases node with
  | call kind name args =>
    have hmapped : (Node.call kind name
        (args.map fun c => (c.modernize table).value)).isChoice = false := by
      simpa [Node.isChoice] using h
    obtain ⟨newKind, newName, hcall⟩ := value_modernCall_call table hmapped
    show (modernCall table kind name _).value.children = _
    rw [hcall]
    rfl
  | _ => rfl

/-- The children of a choice are modernized too, and the first of them stands in a group. -/
theorem children_modernize_choice (table : DeprecationTable) {e : Expr α}
    (h : e.node.isChoice = true) :
    ∃ test yes no, e.node.children = [test, yes, no] ∧
      (e.modernize table).value.node.children =
        [⟨(test.modernize table).value.note, .paren (test.modernize table).value⟩,
          (yes.modernize table).value, (no.modernize table).value] := by
  rw [value_modernize]
  obtain ⟨note, node⟩ := e
  cases node with
  | call kind name args =>
    have hmapped : (Node.call kind name
        (args.map fun c => (c.modernize table).value)).isChoice = true := by
      simpa [Node.isChoice] using h
    obtain ⟨test', yes', no', hargs, hchoice⟩ := value_modernCall_choice table hmapped
    obtain ⟨test, yes, no, rfl, -⟩ := value_modernCall_choice table h
    simp only [List.map_cons, List.map_nil, List.cons.injEq] at hargs
    obtain ⟨rfl, rfl, rfl, -⟩ := hargs
    refine ⟨test, yes, no, rfl, ?_⟩
    show (modernCall table kind name _).value.children = _
    rw [hchoice]
    rfl
  | _ => cases h

/-- What stands at a place is modernized, and is found at the place that it is moved to. -/
theorem descend?_modernize (table : DeprecationTable) {e s : Expr α} {path : List Nat}
    (h : e.descend? path = some s) :
    (e.modernize table).value.descend? (e.placeAfter path) = some (s.modernize table).value := by
  induction path generalizing e with
  | nil =>
    cases h
    rfl
  | cons i path ih =>
    rw [descend?, Option.bind_eq_some_iff] at h
    obtain ⟨c, hc, hs⟩ := h
    have hbelow := ih hs
    rw [placeAfter, hc, Option.map_some, Option.getD_some]
    cases hchoice : e.node.isChoice with
    | false =>
      rw [Bool.false_and, if_neg Bool.false_ne_true, descend?, children_modernize table hchoice,
        List.getElem?_map, hc]
      exact hbelow
    | true =>
      obtain ⟨test, yes, no, hbefore, hafter⟩ := children_modernize_choice table hchoice
      rw [hbefore] at hc
      cases i with
      | zero =>
        cases hc
        simp only [Bool.true_and, beq_self_eq_true, if_true, descend?, hafter,
          List.getElem?_cons_zero, Option.bind_some]
        exact hbelow
      | succ i =>
        rw [List.getElem?_cons_succ] at hc
        show ((e.modernize table).value.node.children[i + 1]?).bind _ = _
        rw [hafter, List.getElem?_cons_succ]
        show (([yes, no].map fun c => (c.modernize table).value)[i]?).bind _ = _
        rw [List.getElem?_map, hc]
        exact hbelow

theorem mem_nodes_of_descend? {e s : Expr α} {path : List Nat} (h : e.descend? path = some s) :
    s ∈ e.nodes := by
  induction path generalizing e with
  | nil =>
    cases h
    exact self_mem_nodes s
  | cons i path ih =>
    rw [descend?, Option.bind_eq_some_iff] at h
    obtain ⟨c, hc, hs⟩ := h
    exact mem_nodes.mpr (Or.inr ⟨c, List.mem_of_getElem? hc, ih hs⟩)

/-! ## Calls of the program's own functions -/

/-- At the place there is a call with the given annotation, kind, name and number of arguments. -/
def HasCall (e : Expr α) (path : List Nat) (note : α) (kind : CallKind) (name : String)
    (arity : Nat) : Prop :=
  ∃ args, args.length = arity ∧ e.descend? path = some ⟨note, .call kind name args⟩

/-- Nothing stands in place of a call of the program's own functions, unless it counts as a read of
the log density. -/
theorem modernCall_user (table : DeprecationTable) {kind : CallKind} {name : String}
    {args : List (Expr α)} (huser : kind.origin? = some .user)
    (hread : ¬ (kind = .conditional .user ∧ name = "get_lp" ∧ args = [])) :
    modernCall table kind name args = pure (.call kind name args) := by
  have hlibrary := CallKind.isLibrary_of_user huser
  have hread' : ¬ (name = "get_lp" ∧ args.isEmpty ∧ kind ≠ .user) := by
    rintro ⟨hname, hargs, hplain⟩
    exact hread ⟨CallKind.eq_conditional_of_user huser hplain, hname, List.isEmpty_iff.mp hargs⟩
  have hrename : table.rename? kind name = none := by
    rw [DeprecationTable.rename?, hlibrary]
    rfl
  unfold modernCall
  rw [if_neg (by simp [hlibrary]), if_neg hread', hrename]

theorem value_modernCall_read (table : DeprecationTable) :
    (modernCall table (.conditional .user) "get_lp" ([] : List (Expr α))).value =
      .call .internal "target" [] := by
  simp [modernCall]

/-- A call of one of the program's own functions is still there after modernizing, unless it counts
as a read of the log density. -/
theorem hasCall_modernize_iff (table : DeprecationTable) {e : Expr α} {path : List Nat} {note : α}
    {kind : CallKind} {name : String} {arity : Nat} (huser : kind.origin? = some .user)
    (h : e.HasCall path note kind name arity) :
    (e.modernize table).value.HasCall (e.placeAfter path) note kind name arity ↔
      ¬ (kind = .conditional .user ∧ name = "get_lp" ∧ arity = 0) := by
  obtain ⟨args, rfl, hplace⟩ := h
  have hafter := descend?_modernize table hplace
  constructor
  · rintro ⟨newArgs, -, hkept⟩ ⟨rfl, rfl, hargs⟩
    obtain rfl := List.length_eq_zero_iff.mp hargs
    rw [hkept, value_modernize] at hafter
    have hnode := congrArg Expr.node (Option.some.inj hafter)
    change _ = (modernCall table (.conditional .user) "get_lp" []).value at hnode
    rw [value_modernCall_read] at hnode
    cases hnode
  · intro hread
    have hargs : ¬ (kind = .conditional .user ∧ name = "get_lp" ∧
        (args.map fun c => (c.modernize table).value) = []) := by
      rintro ⟨hkind, hname, hnil⟩
      exact hread ⟨hkind, hname, by rw [List.map_eq_nil_iff.mp hnil]; rfl⟩
    refine ⟨args.map fun c => (c.modernize table).value, List.length_map _, ?_⟩
    rw [hafter, value_modernize]
    show some (Expr.mk note (modernCall table kind name _).value) = _
    rw [modernCall_user table huser hargs]
    rfl

/-- A repaired tree has no conditional read of the log density. -/
theorem not_hasCall_of_repaired {e : Expr α} (h : e.repair.value = e) (path : List Nat) (note : α) :
    ¬ e.HasCall path note (.conditional .user) "get_lp" 0 := by
  rintro ⟨args, -, hplace⟩
  have htagged := repaired_iff_tagged.mp h _ (mem_nodes_of_descend? hplace)
  injection Node.retag_shell_iff.mp htagged with hkind
  revert hkind
  decide

/-- A call of one of the program's own functions is built as it is written and without a report,
unless it counts as a read of the log density. -/
theorem apply_user_iff {note : Typed} {kind : CallKind} {name : String} {args : List (Expr Typed)}
    (huser : kind.origin? = some .user) :
    apply note kind name args = pure ⟨note, .call kind name args⟩ ↔
      ¬ (kind = .conditional .user ∧ name = "get_lp" ∧ args = []) := by
  constructor
  · rintro happly ⟨rfl, rfl, rfl⟩
    have hvalue := congrArg (fun built => built.value.node) happly
    cases hvalue
  · intro hread
    have hlibrary := CallKind.isLibrary_of_user huser
    have hplain : kind ≠ .library := by
      rintro rfl
      cases hlibrary
    rw [apply, modernCall_user .builtin huser hread, pure_bind]
    show applyModern note kind name args = _
    rw [applyModern, if_neg (by simp [hlibrary]), if_neg hplain]

/-- Every tree is modernized in its place. Calls of the program's own functions are left alone
there, whatever the table says and whatever the functions are called, but for conditional reads of
the log density. A repaired tree has none of these. Building a call does the same. -/
theorem user_calls_kept (table : DeprecationTable) (e : Expr Typed) :
    (∀ path s, e.descend? path = some s →
        (e.modernize table).value.descend? (e.placeAfter path) = some (s.modernize table).value) ∧
      (∀ path note kind name arity, kind.origin? = some .user →
        e.HasCall path note kind name arity →
        ((e.modernize table).value.HasCall (e.placeAfter path) note kind name arity ↔
          ¬ (kind = .conditional .user ∧ name = "get_lp" ∧ arity = 0))) ∧
      (e.repair.value = e → ∀ path note,
        ¬ e.HasCall path note (.conditional .user) "get_lp" 0) ∧
      ∀ note kind name args, kind.origin? = some .user →
        (apply note kind name args = pure ⟨note, .call kind name args⟩ ↔
          ¬ (kind = .conditional .user ∧ name = "get_lp" ∧ args = [])) := by
  refine ⟨?_, ?_, ?_, ?_⟩
  · exact fun _ _ hplace => descend?_modernize table hplace
  · exact fun _ _ _ _ _ huser hcall => hasCall_modernize_iff table huser hcall
  · exact not_hasCall_of_repaired
  · exact fun _ _ _ _ huser => apply_user_iff huser

/-- A choice whose test calls a function of the program that is named as a deprecated one. -/
def namesakeTest : Expr Typed :=
  ⟨.data .real, .call .library "if_else"
    [⟨.data .int, .call .user "multiply_log" [⟨.data .int, .var "a"⟩, ⟨.data .int, .var "b"⟩]⟩,
      ⟨.data .real, .var "x"⟩, ⟨.data .real, .var "y"⟩]⟩

theorem user_calls_kept_namesakeTest :
    namesakeTest.HasCall [0] (.data .int) .user "multiply_log" 2 ∧
      (namesakeTest.modernize .builtin).value.HasCall [0, 0] (.data .int) .user "multiply_log" 2 ∧
      namesakeTest.repair.value = namesakeTest ∧
      ¬ namesakeTest.HasCall [0] (.data .int) (.conditional .user) "get_lp" 0 ∧
      apply (.data .real) (.conditional .user) "multiply_log" [] =
        pure ⟨.data .real, .call (.conditional .user) "multiply_log" []⟩ := by
  obtain ⟨-, hmodern, hrepaired, hbuilt⟩ := user_calls_kept .builtin namesakeTest
  have hcall : namesakeTest.HasCall [0] (.data .int) .user "multiply_log" 2 := ⟨_, rfl, rfl⟩
  have hrepair : namesakeTest.repair.value = namesakeTest := by
    have hvar (note : Typed) (name : String) :
        (repair ⟨note, .var name⟩).value = ⟨note, .var name⟩ := value_repair _
    refine repaired_iff.mpr ⟨rfl, ?_⟩
    simp only [namesakeTest, Node.children, List.forall_mem_cons]
    refine ⟨repaired_iff.mpr ⟨rfl, ?_⟩, hvar _ _, hvar _ _, List.forall_mem_nil _⟩
    simp [Node.children, hvar]
  refine ⟨hcall, ?_, hrepair, hrepaired hrepair _ _, ?_⟩
  · exact (hmodern _ _ _ _ _ rfl hcall).mpr (by decide)
  · exact (hbuilt _ _ _ _ rfl).mpr (by decide)

/-- A conditional call of a function of the program that is named `get_lp`. -/
def conditionalRead : Expr Typed := ⟨.data .real, .call (.conditional .user) "get_lp" []⟩

/-- It is replaced, although the program provides the function. -/
theorem conditionalRead_replaced :
    conditionalRead.HasCall [] (.data .real) (.conditional .user) "get_lp" 0 ∧
      (∀ table, ¬ (conditionalRead.modernize table).value.HasCall (conditionalRead.placeAfter [])
        (.data .real) (.conditional .user) "get_lp" 0) ∧
      (apply (.data .real) (.conditional .user) "get_lp" []).value =
        ⟨.data .real, .call .internal "target" []⟩ := by
  have hcall : conditionalRead.HasCall [] (.data .real) (.conditional .user) "get_lp" 0 :=
    ⟨[], rfl, rfl⟩
  refine ⟨hcall, ?_, rfl⟩
  intro table hkept
  exact (hasCall_modernize_iff table rfl hcall).mp hkept ⟨rfl, rfl, rfl⟩

end Expr

end ModelForm
