import ModelForm.Proofs.Mapping
import ModelForm.Proofs.Renaming
import ModelForm.Regression

/-!
# What is fused

Each function that reads a regression off an expression is inverted once, down to the nodes that it
has seen:

* `LinearPredictor.ofExpr?_eq_some`: the three forms of a linear predictor;
* `fuseCall?_eq_some`: a fused call is one of a mass function whose second argument is the link of
  the family, and what takes its place follows from what the link is over;
* `splitMass?_eq_some_iff`, `fuseCall?_append`, `fuse?_eq_map`: what suffixes have to do with it;
* `Fusion.mem_args`: the arguments of a fused call are nodes of the arguments before, but for an
  intercept that was not written.

Which calls are fused and what they are called then is a matter of few names (`fusibleNames`,
`fusedNames`).
-/

namespace ModelForm

/-! ## Calls and operators -/

namespace Expr

variable {α : Type}

theorem libraryArgs?_eq_some {name : String} {e : Expr α} {args : List (Expr α)} :
    e.libraryArgs? name = some args ↔ e.node = .call .library name args := by
  unfold libraryArgs?
  split
  · next callee args' h =>
    rw [h, Option.ite_none_right_eq_some]
    constructor
    · rintro ⟨rfl, h⟩
      rw [Option.some.inj h]
    · intro h
      cases h
      exact ⟨rfl, rfl⟩
  · next hother =>
    constructor
    · intro h
      cases h
    · intro h
      exact absurd h (hother name args)

theorem operands?_eq_some {op : Operator} {e left right : Expr α} :
    e.operands? op = some (left, right) ↔ e.node = .call .library op.name [left, right] := by
  rw [← libraryArgs?_eq_some]
  unfold operands?
  split
  · next l r h =>
    rw [h]
    simp
  · next hother =>
    constructor
    · intro h
      cases h
    · intro h
      exact absurd h (hother left right)

end Expr

/-! ## Linear predictors -/

namespace LinearPredictor

theorem product?_eq_some {e design coefficients : Expr Typed} :
    product? e = some (design, coefficients) ↔
      e.node = .call .library Operator.times.name [design, coefficients] ∧
        design.note.type = .matrix := by
  have hmatrix (t : ValueType) : t.isMatrix ↔ t = .matrix := by
    cases t <;> simp [ValueType.isMatrix]
  rw [product?, Option.filter_eq_some_iff, Expr.operands?_eq_some, hmatrix]

/-- The forms of a linear predictor: a sum with the product on the right, a sum with the product on
the left, and the product alone. -/
inductive Shape (p : LinearPredictor) (e : Expr Typed) : Prop
  | right (product : Expr Typed)
      (sum : e.node = .call .library Operator.plus.name [p.intercept, product])
      (factors : LinearPredictor.product? product = some (p.design, p.coefficients))
  | left (product : Expr Typed)
      (sum : e.node = .call .library Operator.plus.name [product, p.intercept])
      (factors : LinearPredictor.product? product = some (p.design, p.coefficients))
  | alone (intercept : p.intercept = zeroIntercept e)
      (factors : LinearPredictor.product? e = some (p.design, p.coefficients))

theorem ofExpr?_eq_some {e : Expr Typed} {p : LinearPredictor} (h : ofExpr? e = some p) :
    p.Shape e := by
  unfold ofExpr? at h
  split at h
  · next left right hsum =>
    rw [Expr.operands?_eq_some] at hsum
    split at h
    · next design coefficients hproduct =>
      cases h
      exact .right right hsum hproduct
    · obtain ⟨⟨design, coefficients⟩, hproduct, rfl⟩ := Option.map_eq_some_iff.mp h
      exact .left left hsum hproduct
  · obtain ⟨⟨design, coefficients⟩, hproduct, rfl⟩ := Option.map_eq_some_iff.mp h
    exact .alone rfl hproduct

end LinearPredictor

/-! ## Fused calls -/

theorem LinkedFamily.find?_eq_some {family : String} {f : LinkedFamily}
    (h : LinkedFamily.find? family = some f) : f ∈ LinkedFamily.all ∧ f.family = family := by
  unfold find? at h
  have hname := List.find?_some h
  exact ⟨List.mem_of_find?_eq_some h, eq_of_beq hname⟩

/-- What a fusion has seen: the outcome and the link of the family over a predictor, and whether
the predictor is linear. -/
theorem fuse?_eq_some {family suffix : String} {args : List (Expr Typed)} {fusion : Fusion}
    (h : fuse? family suffix args = some fusion) :
    ∃ f ∈ LinkedFamily.all, f.family = family ∧
      ∃ outcome parameter predictor rest, args = outcome :: parameter :: rest ∧
        parameter.node = .call .library f.link [predictor] ∧
        ((∃ p : LinearPredictor, p.Shape predictor ∧ fusion.name = f.linked ++ "_glm" ++ suffix ∧
            fusion.args = [outcome, p.design, p.intercept, p.coefficients] ++ rest) ∨
          fusion.name = f.linked ++ suffix ∧ fusion.args = [outcome, predictor] ++ rest) := by
  simp only [fuse?, Option.bind_eq_bind, Option.bind_eq_some_iff] at h
  obtain ⟨f, hf, h⟩ := h
  obtain ⟨hmem, hfamily⟩ := LinkedFamily.find?_eq_some hf
  refine ⟨f, hmem, hfamily, ?_⟩
  split at h
  · next outcome parameter rest =>
    split at h
    · next predictor hlink =>
      refine ⟨outcome, parameter, predictor, rest, rfl, Expr.libraryArgs?_eq_some.mp hlink, ?_⟩
      split at h
      · next p hp =>
        cases h
        exact Or.inl ⟨p, LinearPredictor.ofExpr?_eq_some hp, rfl, rfl⟩
      · cases h
        exact Or.inr ⟨rfl, rfl⟩
    · cases h
  · cases h

/-- The search for a suffix finds the last one of a name and leaves what stands before it, also if
that ends in a suffix again or is nothing. -/
theorem splitMass?_eq_some_iff {name family : String} {s : DensitySuffix} :
    splitMass? name = some (family, s) ↔ s ∈ massSuffixes ∧ name = family ++ s.text := by
  constructor
  · intro h
    obtain ⟨t, ht, hstrip⟩ := List.exists_of_findSome?_eq_some h
    obtain ⟨stem, hstem, heq⟩ := Option.map_eq_some_iff.mp hstrip
    cases heq
    exact ⟨ht, stripSuffix?_eq_some_iff.mp hstem⟩
  · rintro ⟨hs, rfl⟩
    obtain rfl | rfl : s = .lpmf ∨ s = .lupmf := by simpa [massSuffixes] using hs
    · simp [splitMass?, massSuffixes, stripSuffix?_append_text]
    · simp [splitMass?, massSuffixes, stripSuffix?_append_text]

example : splitMass? "_lpmf" = some ("", .lpmf) ∧ densitySuffix? "_lpmf" = none := by
  decide

/-- A fused call names a mass function of a family with a link. -/
theorem fuseCall?_eq_some {name : String} {args : List (Expr Typed)} {fusion : Fusion}
    (h : fuseCall? name args = some fusion) :
    ∃ family, ∃ s ∈ massSuffixes, name = family ++ s.text ∧
      fuse? family s.text args = some fusion := by
  simp only [fuseCall?, Option.bind_eq_bind, Option.bind_eq_some_iff] at h
  obtain ⟨⟨family, s⟩, hsplit, h⟩ := h
  obtain ⟨hs, hname⟩ := splitMass?_eq_some_iff.mp hsplit
  exact ⟨family, s, hs, hname, h⟩

/-! ### Suffixes -/

theorem fuseCall?_append (family : String) {s : DensitySuffix} (hs : s ∈ massSuffixes)
    (args : List (Expr Typed)) :
    fuseCall? (family ++ s.text) args = fuse? family s.text args := by
  rw [fuseCall?, splitMass?_eq_some_iff.mpr ⟨hs, rfl⟩]
  rfl

/-- Whether something is fused does not depend on the suffix, and the new name carries it on. -/
theorem fuse?_eq_map (family suffix : String) (args : List (Expr Typed)) :
    fuse? family suffix args =
      (fuse? family "" args).map fun fusion => { fusion with name := fusion.name ++ suffix } := by
  unfold fuse?
  cases LinkedFamily.find? family with
  | none => rfl
  | some f =>
    simp only [Option.bind_eq_bind, Option.bind_some]
    split
    · split
      · split
        · simp
        · simp
      · rfl
    · rfl

/-! ### Names -/

def fusibleNames : List String :=
  LinkedFamily.all.flatMap fun f => massSuffixes.map fun s => f.family ++ s.text

def fusedNames : List String :=
  LinkedFamily.all.flatMap fun f => massSuffixes.flatMap fun s =>
    [f.linked ++ "_glm" ++ s.text, f.linked ++ s.text]

theorem mem_fusibleNames {name : String} {args : List (Expr Typed)} {fusion : Fusion}
    (h : fuseCall? name args = some fusion) : name ∈ fusibleNames := by
  obtain ⟨family, s, hs, rfl, hfuse⟩ := fuseCall?_eq_some h
  obtain ⟨f, hf, rfl, -⟩ := fuse?_eq_some hfuse
  exact List.mem_flatMap.mpr ⟨f, hf, List.mem_map.mpr ⟨s, hs, rfl⟩⟩

theorem mem_fusedNames {name : String} {args : List (Expr Typed)} {fusion : Fusion}
    (h : fuseCall? name args = some fusion) : fusion.name ∈ fusedNames := by
  obtain ⟨family, s, hs, -, hfuse⟩ := fuseCall?_eq_some h
  obtain ⟨f, hf, -, outcome, parameter, predictor, rest, -, -, hfused⟩ := fuse?_eq_some hfuse
  refine List.mem_flatMap.mpr ⟨f, hf, List.mem_flatMap.mpr ⟨s, hs, ?_⟩⟩
  obtain ⟨p, -, hname, -⟩ | ⟨hname, -⟩ := hfused
  · rw [hname]
    exact List.mem_cons_self
  · rw [hname]
    exact List.mem_cons_of_mem _ List.mem_cons_self

theorem fuseCall?_eq_none {name : String} (h : name ∉ fusibleNames) (args : List (Expr Typed)) :
    fuseCall? name args = none := by
  cases hfuse : fuseCall? name args with
  | none => rfl
  | some fusion => exact absurd (mem_fusibleNames hfuse) h

/-- What is fused is a density by its name. -/
theorem densitySuffix?_of_fuseCall? {name : String} {args : List (Expr Typed)} {fusion : Fusion}
    (h : fuseCall? name args = some fusion) : (densitySuffix? name).isSome := by
  obtain ⟨family, s, -, rfl, hfuse⟩ := fuseCall?_eq_some h
  obtain ⟨f, hf, rfl, -⟩ := fuse?_eq_some hfuse
  have hnames : ∀ f ∈ LinkedFamily.all, f.family ≠ "" := by decide
  exact densitySuffix?_append (hnames f hf) s

/-- What it is fused to is a density by its name too. -/
theorem densitySuffix?_of_mem_fusedNames {name : String} (h : name ∈ fusedNames) :
    (densitySuffix? name).isSome := by
  obtain ⟨f, hf, h⟩ := List.mem_flatMap.mp h
  obtain ⟨s, -, h⟩ := List.mem_flatMap.mp h
  have hnames : ∀ f ∈ LinkedFamily.all, f.linked ++ "_glm" ≠ "" ∧ f.linked ≠ "" := by decide
  rcases List.mem_cons.mp h with rfl | h
  · exact densitySuffix?_append (hnames f hf).1 s
  · rw [List.mem_singleton.mp h]
    exact densitySuffix?_append (hnames f hf).2 s

/-! ### Arguments -/

namespace LinearPredictor

theorem mem_nodes_of_product? {e design coefficients : Expr Typed}
    (h : product? e = some (design, coefficients)) :
    design ∈ e.nodes ∧ coefficients ∈ e.nodes := by
  obtain ⟨hnode, -⟩ := product?_eq_some.mp h
  constructor
  · apply Expr.mem_nodes_of_child
    rw [hnode]
    exact List.mem_cons_self
  · apply Expr.mem_nodes_of_child
    rw [hnode]
    exact List.mem_cons_of_mem _ List.mem_cons_self

/-- The parts of a linear predictor are nodes of it, or an intercept that was not written. -/
theorem Shape.mem_nodes {p : LinearPredictor} {e c : Expr Typed} (h : p.Shape e)
    (hc : c ∈ [p.design, p.intercept, p.coefficients]) : c ∈ e.nodes ∨ c = zeroIntercept e := by
  have hsum {left right : Expr Typed}
      (hnode : e.node = .call .library Operator.plus.name [left, right]) (s : Expr Typed)
      (hs : s = left ∨ s = right) : s ∈ e.nodes := by
    apply Expr.mem_nodes_of_child
    rw [hnode]
    simpa [Node.children] using hs
  simp only [List.mem_cons, List.not_mem_nil, or_false] at hc
  cases h with
  | right product sum factors =>
    obtain ⟨hdesign, hcoefficients⟩ := mem_nodes_of_product? factors
    have hproduct : product ∈ e.nodes := hsum sum product (Or.inr rfl)
    left
    rcases hc with rfl | rfl | rfl
    · exact Expr.mem_nodes_trans hdesign hproduct
    · exact hsum sum _ (Or.inl rfl)
    · exact Expr.mem_nodes_trans hcoefficients hproduct
  | left product sum factors =>
    obtain ⟨hdesign, hcoefficients⟩ := mem_nodes_of_product? factors
    have hproduct : product ∈ e.nodes := hsum sum product (Or.inl rfl)
    left
    rcases hc with rfl | rfl | rfl
    · exact Expr.mem_nodes_trans hdesign hproduct
    · exact hsum sum _ (Or.inr rfl)
    · exact Expr.mem_nodes_trans hcoefficients hproduct
  | alone intercept factors =>
    obtain ⟨hdesign, hcoefficients⟩ := mem_nodes_of_product? factors
    rcases hc with rfl | rfl | rfl
    · exact Or.inl hdesign
    · exact Or.inr intercept
    · exact Or.inl hcoefficients

end LinearPredictor

/-- An argument of a fused call is a node of an argument before, or an intercept that was not
written. -/
theorem Fusion.mem_args {name : String} {args : List (Expr Typed)} {fusion : Fusion}
    (h : fuseCall? name args = some fusion) {c : Expr Typed} (hc : c ∈ fusion.args) :
    (∃ a ∈ args, c ∈ a.nodes) ∨ ∃ predictor, c = LinearPredictor.zeroIntercept predictor := by
  obtain ⟨family, s, -, -, hfuse⟩ := fuseCall?_eq_some h
  obtain ⟨f, -, -, outcome, parameter, predictor, rest, rfl, hlink, hfused⟩ := fuse?_eq_some hfuse
  have hpredictor : predictor ∈ parameter.nodes := by
    apply Expr.mem_nodes_of_child
    rw [hlink]
    exact List.mem_singleton.mpr rfl
  -- the outcome and the rest stay, and all else comes from the predictor
  have hsource : c = outcome ∨ c ∈ rest ∨ c ∈ predictor.nodes ∨
      c = LinearPredictor.zeroIntercept predictor := by
    obtain ⟨p, hshape, -, hargs⟩ | ⟨-, hargs⟩ := hfused
    · rw [hargs] at hc
      rcases List.mem_append.mp hc with hc | hc
      · rcases List.mem_cons.mp hc with hc | hc
        · exact Or.inl hc
        · exact Or.inr (Or.inr (hshape.mem_nodes hc))
      · exact Or.inr (Or.inl hc)
    · rw [hargs] at hc
      rcases List.mem_append.mp hc with hc | hc
      · rcases List.mem_cons.mp hc with hc | hc
        · exact Or.inl hc
        · rw [List.mem_singleton.mp hc]
          exact Or.inr (Or.inr (Or.inl (Expr.self_mem_nodes _)))
      · exact Or.inr (Or.inl hc)
  rcases hsource with rfl | hrest | hinner | hzero
  · exact Or.inl ⟨c, List.mem_cons_self, Expr.self_mem_nodes c⟩
  · have hmem : c ∈ outcome :: parameter :: rest :=
      List.mem_cons_of_mem _ (List.mem_cons_of_mem _ hrest)
    exact Or.inl ⟨c, hmem, Expr.self_mem_nodes c⟩
  · have hmem : parameter ∈ outcome :: parameter :: rest :=
      List.mem_cons_of_mem _ List.mem_cons_self
    exact Or.inl ⟨parameter, hmem, Expr.mem_nodes_trans hinner hpredictor⟩
  · exact Or.inr ⟨predictor, hzero⟩

end ModelForm
