import ModelForm.Proofs.Hashing

/-!
# The order of trees

Trees are compared by working off pairs of trees until two nodes differ. This is the lexicographic
order of their pre-order lists (`Expr.compare_eq_compareLex`): nodes that compare as equal have the
same shell, so their children pair up without a rest and come next in both lists.

Everything else is known of lexicographic orders once the orders of the parts are lawful. This is
shown here for shells and for each kind of annotation. All of them are orders by a key, and such an
order is lawful if the key tells values apart.

* `Expr.compare_lawful`: the order of trees is total, and trees that compare as equal are the equal
  ones.
-/

namespace ModelForm

/-! ## Orders by a key -/

section Keys

variable {γ κ : Type} [Ord κ] [Std.LawfulEqOrd κ]

theorem compareOn_eq_eq {key : γ → κ} {a b : γ} : compareOn key a b = .eq ↔ key a = key b :=
  Std.LawfulEqOrd.compare_eq_iff_eq

/-- Under a key that tells values apart, what compares as equal is equal. -/
theorem lawfulEqCmp_compareOn {key : γ → κ} (h : ∀ a b, key a = key b → a = b) :
    Std.LawfulEqCmp (compareOn key) where
  compare_self := compareOn_eq_eq.mpr rfl
  eq_of_compare hab := h _ _ (compareOn_eq_eq.mp hab)

end Keys

/-! ## Annotations -/

theorem ValueType.orderKey_inj (s t : ValueType) (h : s.orderKey = t.orderKey) : s = t := by
  induction s generalizing t with
  | array element ih =>
    cases t with
    | array element' => rw [ih element' (List.cons.inj h).2]
    | _ => cases h
  | _ => cases t <;> simp_all [orderKey]

instance : Std.TransOrd ValueType := inferInstanceAs (Std.TransCmp (compareOn ValueType.orderKey))

instance : Std.LawfulEqOrd ValueType := lawfulEqCmp_compareOn ValueType.orderKey_inj

theorem AdLevel.rank_inj (a b : AdLevel) (h : a.rank = b.rank) : a = b := by
  cases a <;> cases b <;> simp_all [rank]

instance : Std.TransOrd AdLevel := inferInstanceAs (Std.TransCmp (compareOn AdLevel.rank))

instance : Std.LawfulEqOrd AdLevel := lawfulEqCmp_compareOn AdLevel.rank_inj

instance : Std.TransOrd Untyped where
  eq_swap := rfl
  isLE_trans _ _ := rfl

instance : Std.LawfulBEqOrd Untyped where
  compare_eq_iff_beq := iff_of_true rfl rfl

instance : Std.TransOrd Typed :=
  inferInstanceAs (Std.TransCmp (compareLex (compareOn Typed.type) (compareOn Typed.level)))

instance : Std.LawfulBEqOrd Typed where
  compare_eq_iff_beq {a b} := by
    show compareLex (compareOn Typed.type) (compareOn Typed.level) a b = .eq ↔ _
    rw [compareLex_eq_eq, compareOn_eq_eq, compareOn_eq_eq, equalBy_typed a b, Typed.meaning,
      Typed.meaning, Prod.mk.injEq]

instance : Std.TransOrd Labelled := inferInstanceAs (Std.TransCmp (compareOn Labelled.toTyped))

instance : Std.LawfulBEqOrd Labelled where
  compare_eq_iff_beq {a b} := Std.LawfulBEqOrd.compare_eq_iff_beq (a := a.toTyped) (b := b.toTyped)

/-! ## Shells -/

theorem LiteralKind.rank_inj (a b : LiteralKind) (h : a.rank = b.rank) : a = b := by
  cases a <;> cases b <;> simp_all [rank]

theorem Origin.rank_inj (a b : Origin) (h : a.rank = b.rank) : a = b := by
  cases a <;> cases b <;> simp_all [rank]

theorem CallKind.orderKey_inj (a b : CallKind) (h : a.orderKey = b.orderKey) : a = b := by
  cases a with
  | conditional origin =>
    cases b with
    | conditional origin' =>
      have hrank := List.singleton_inj.mp (List.cons.inj h).2
      rw [Origin.rank_inj origin origin' hrank]
    | _ => cases h
  | _ => cases b <;> simp_all [orderKey]

theorem Index.rank_inj (i j : Index Unit) (h : i.rank = j.rank) : i = j := by
  cases i <;> cases j <;> simp_all [rank]

namespace Shell

/-- The four parts that are compared make up the whole shell. -/
theorem ext_of_parts {s t : Shell} (hrank : s.rank = t.rank) (hkind : s.kindKey = t.kindKey)
    (htext : s.text = t.text) (hplaces : s.placesKey = t.placesKey) : s = t := by
  cases s with
  | var name =>
    cases t with
    | var name' => exact congrArg Node.var htext
    | _ => cases hrank
  | literal kind text =>
    cases t with
    | literal kind' text' =>
      obtain rfl := LiteralKind.rank_inj kind kind' (List.singleton_inj.mp hkind)
      exact congrArg (Node.literal kind) htext
    | _ => cases hrank
  | call kind name args =>
    cases t with
    | call kind' name' args' =>
      obtain rfl := CallKind.orderKey_inj kind kind' hkind
      obtain rfl : name = name' := htext
      have hlength : args.length = args'.length := List.singleton_inj.mp hplaces
      exact congrArg (Node.call kind name) (List.ext_getElem hlength fun _ _ _ => rfl)
    | _ => cases hrank
  | indexed base indices =>
    cases t with
    | indexed base' indices' =>
      exact congrArg (Node.indexed ()) ((List.map_inj_right Index.rank_inj).mp hplaces)
    | _ => cases hrank
  | conditional _ _ _ =>
    cases t with
    | conditional _ _ _ => rfl
    | _ => cases hrank
  | and _ _ =>
    cases t with
    | and _ _ => rfl
    | _ => cases hrank
  | or _ _ =>
    cases t with
    | or _ _ => rfl
    | _ => cases hrank
  | paren _ =>
    cases t with
    | paren _ => rfl
    | _ => cases hrank

instance : Std.TransOrd Shell :=
  inferInstanceAs <| Std.TransCmp <| compareLex (compareOn rank) <|
    compareLex (compareOn kindKey) <| compareLex (compareOn text) (compareOn placesKey)

instance : Std.LawfulEqOrd Shell where
  compare_self := Std.ReflCmp.compare_self
  eq_of_compare {s t} h := by
    replace h : compareParts s t = .eq := h
    simp only [compareParts, compareLex_eq_eq, compareOn_eq_eq] at h
    obtain ⟨hrank, hkind, htext, hplaces⟩ := h
    exact ext_of_parts hrank hkind htext hplaces

end Shell

/-! ## Trees -/

namespace Expr

variable {α : Type}

section Lexicographic

variable [Ord α]

/-- How two items of pre-order lists compare: the annotations first, then the shells. -/
def compareItems : α × Shell → α × Shell → Ordering :=
  compareLex (compareOn Prod.fst) (compareOn Prod.snd)

/-- Working off pairs of trees compares the pre-order lists of what is on their left and on their
right. -/
theorem compareAll_eq_compareLex (pairs : List (Expr α × Expr α)) :
    compareAll pairs = List.compareLex compareItems ((pairs.map Prod.fst).flatMap preorder)
      ((pairs.map Prod.snd).flatMap preorder) := by
  fun_induction compareAll pairs with
  | case1 => rfl
  | case2 a b pending h ih =>
    have hshell : a.node.shell = b.node.shell :=
      Std.LawfulEqOrd.eq_of_compare (Ordering.then_eq_eq.mp h).2
    have hlength := Node.length_children_of_shell hshell
    have hitems : compareItems (a.note, a.node.shell) (b.note, b.node.shell) = .eq := h
    rw [ih, pairChildren, List.map_append, List.map_append, List.map_fst_zip (Nat.le_of_eq hlength),
      List.map_snd_zip (Nat.le_of_eq hlength.symm)]
    simp only [List.map_cons, List.flatMap_cons, List.flatMap_append]
    rw [preorder_eq a, preorder_eq b, List.cons_append, List.cons_append,
      List.compareLex_cons_cons, hitems, Ordering.eq_then]
  | case3 a b pending hdiffer =>
    simp only [List.map_cons, List.flatMap_cons]
    rw [preorder_eq a, preorder_eq b, List.cons_append, List.cons_append,
      List.compareLex_cons_cons]
    show compareItems (a.note, a.node.shell) (b.note, b.node.shell) = _
    cases hitems : compareItems (a.note, a.node.shell) (b.note, b.node.shell) with
    | eq => exact absurd hitems hdiffer
    | lt => rfl
    | gt => rfl

/-- The order of trees is the lexicographic order of their pre-order lists. -/
theorem compare_eq_compareLex (a b : Expr α) :
    compare a b = List.compareLex compareItems a.preorder b.preorder := by
  show compareAll [(a, b)] = _
  rw [compareAll_eq_compareLex]
  simp

instance [Std.TransOrd α] : Std.TransCmp (compareItems (α := α)) :=
  inferInstanceAs (Std.TransCmp (compareLex (compareOn Prod.fst) (compareOn Prod.snd)))

instance [Std.TransOrd α] : Std.TransOrd (Expr α) where
  eq_swap := by
    intro a b
    rw [compare_eq_compareLex, compare_eq_compareLex]
    exact Std.OrientedCmp.eq_swap
  isLE_trans := by
    intro a b c hab hbc
    rw [compare_eq_compareLex] at hab hbc ⊢
    exact Std.TransCmp.isLE_trans hab hbc

end Lexicographic

/-- Both ways of working off pairs come to the same pairs. -/
theorem compareAll_eq_eq_iff [BEq α] [Ord α] [Std.LawfulBEqOrd α] (pairs : List (Expr α × Expr α)) :
    compareAll pairs = .eq ↔ allEqual pairs := by
  have hroot (a b : Expr α) :
      (compare a.note b.note).then (compare a.node.shell b.node.shell) = .eq ↔
        (a.note == b.note && a.node.shell == b.node.shell) = true := by
    rw [Ordering.then_eq_eq, Bool.and_eq_true, Std.LawfulBEqOrd.compare_eq_iff_beq,
      Std.LawfulEqOrd.compare_eq_iff_eq, beq_iff_eq (a := a.node.shell)]
  fun_induction compareAll pairs with
  | case1 => simp [allEqual]
  | case2 a b pending h ih =>
    rw [allEqual, if_pos ((hroot a b).mp h)]
    exact ih
  | case3 a b pending hdiffer =>
    rw [allEqual, if_neg (mt (hroot a b).mpr hdiffer)]
    exact iff_of_false hdiffer Bool.false_ne_true

instance [BEq α] [Ord α] [Std.LawfulBEqOrd α] : Std.LawfulBEqOrd (Expr α) where
  compare_eq_iff_beq {a b} := compareAll_eq_eq_iff [(a, b)]

/-- Trees are ordered as their pre-order lists are. The order is reversed by exchanging the trees,
transitive, and says that trees are equal exactly if they are. -/
theorem compare_lawful [BEq α] [Ord α] [Std.TransOrd α] [Std.LawfulBEqOrd α] (a b c : Expr α) :
    compare a b = List.compareLex (compareLex (compareOn Prod.fst) (compareOn Prod.snd))
        a.preorder b.preorder ∧
      compare b a = (compare a b).swap ∧
      ((compare a b).isLE → (compare b c).isLE → (compare a c).isLE) ∧
      (∀ o, compare a b = o → compare b c = o → compare a c = o) ∧
      (compare a b = .eq ↔ a == b) := by
  refine ⟨compare_eq_compareLex a b, Std.OrientedCmp.eq_swap, Std.TransCmp.isLE_trans, ?_,
    Std.LawfulBEqOrd.compare_eq_iff_beq⟩
  intro o hab hbc
  cases o with
  | lt => exact Std.TransCmp.lt_trans hab hbc
  | eq => exact Std.TransCmp.eq_trans hab hbc
  | gt => exact Std.TransCmp.gt_trans hab hbc

def tailSlice (note : α) : Expr α :=
  ⟨note, .indexed ⟨note, .var "x"⟩ [.upFrom ⟨note, .var "i"⟩]⟩

def midSlice (note : α) : Expr α :=
  ⟨note, .indexed ⟨note, .var "x"⟩ [.between ⟨note, .var "i"⟩ ⟨note, .var "n"⟩]⟩

/-- Slices of different forms, with each kind of annotation and at different places. -/
theorem compare_lawful_slices :
    let plain : Untyped := ⟨⟩
    let here : Typed := ⟨.int, .dataOnly, ⟨0, 1⟩⟩
    let there : Typed := ⟨.int, .dataOnly, ⟨7, 9⟩⟩
    compare (midSlice plain) (tailSlice plain) = .gt ∧
      compare (midSlice here) (tailSlice there) = .gt ∧
      compare (midSlice (here.withLabel 3)) (tailSlice (there.withLabel 5)) = .gt ∧
      tailSlice here == tailSlice there := by
  intro plain here there
  have hplain : compare (tailSlice plain) (midSlice plain) = .lt := by decide +kernel
  have htyped : compare (tailSlice there) (midSlice here) = .lt := by decide +kernel
  have hlabelled :
      compare (tailSlice (there.withLabel 5)) (midSlice (here.withLabel 3)) = .lt := by
    decide +kernel
  have hplaces : compare (tailSlice here) (tailSlice there) = .eq := by decide +kernel
  refine ⟨?_, ?_, ?_, ?_⟩
  · exact (compare_lawful _ _ (midSlice plain)).2.1.trans (congrArg Ordering.swap hplain)
  · exact (compare_lawful _ _ (midSlice here)).2.1.trans (congrArg Ordering.swap htyped)
  · exact (compare_lawful _ _ (midSlice (here.withLabel 3))).2.1.trans
      (congrArg Ordering.swap hlabelled)
  · exact (compare_lawful _ _ (tailSlice there)).2.2.2.2.mp hplaces

end Expr

end ModelForm
