import ModelForm.Proofs.Fusion

/-!
# Intercepts of linear predictors

A sum is a linear predictor if one of its sides is a product of a matrix, and the other side is the
intercept then. `InterceptRules` says which side is which: for one product it does not matter on
which side it stands, and of two products the right one counts, so that exchanging them exchanges
their roles. What is no sum has an intercept only if it is a product itself, and that intercept is
zero. All else is passed on as it is.

* `LinearPredictor.ofExpr?_plus_right` and its siblings — how an expression is read as a predictor.
* `fuseWritten?_underLink` — fusing under the link is a matter of how the predictor is read.
* `fuse_intercepts` — the rules hold for each family with a link, in sampling statements and under
  each suffix.
-/

namespace ModelForm

/-! ## Products and sums -/

namespace Expr

/-- The expression is the product of a matrix `x` with `β`. -/
def IsProductOf (e x β : Expr Typed) : Prop :=
  e.node = .call .library "Times__" [x, β] ∧ x.note.type = .matrix

def IsProduct (e : Expr Typed) : Prop := ∃ x β, e.IsProductOf x β

def IsSum (e : Expr Typed) : Prop := ∃ a b, e.node = .call .library "Plus__" [a, b]

def plus (note : Typed) (a b : Expr Typed) : Expr Typed := ⟨note, .call .library "Plus__" [a, b]⟩

end Expr

namespace LinearPredictor

theorem product?_eq_some_iff {e x β : Expr Typed} :
    product? e = some (x, β) ↔ e.IsProductOf x β := product?_eq_some

theorem product?_eq_none_iff {e : Expr Typed} : product? e = none ↔ ¬ e.IsProduct := by
  rw [Option.eq_none_iff_forall_ne_some]
  constructor
  · rintro h ⟨x, β, hproduct⟩
    exact h (x, β) (product?_eq_some_iff.mpr hproduct)
  · rintro h ⟨x, β⟩ hproduct
    exact h ⟨x, β, product?_eq_some_iff.mp hproduct⟩

theorem operands?_plus (note : Typed) (a b : Expr Typed) :
    (Expr.plus note a b).operands? .plus = some (a, b) := Expr.operands?_eq_some.mpr rfl

/-- The right side of a sum is looked at first. -/
theorem ofExpr?_plus_right {b x β : Expr Typed} (hb : b.IsProductOf x β) (note : Typed)
    (a : Expr Typed) : ofExpr? (.plus note a b) = some ⟨x, a, β⟩ := by
  rw [ofExpr?, operands?_plus]
  simp only [product?_eq_some_iff.mpr hb]

/-- The left side counts if the right one is no product. -/
theorem ofExpr?_plus_left {a b x β : Expr Typed} (ha : a.IsProductOf x β) (hb : ¬ b.IsProduct)
    (note : Typed) : ofExpr? (.plus note a b) = some ⟨x, b, β⟩ := by
  rw [ofExpr?, operands?_plus]
  simp only [product?_eq_none_iff.mpr hb, product?_eq_some_iff.mpr ha, Option.map_some]

theorem ofExpr?_plus_neither {a b : Expr Typed} (ha : ¬ a.IsProduct) (hb : ¬ b.IsProduct)
    (note : Typed) : ofExpr? (.plus note a b) = none := by
  rw [ofExpr?, operands?_plus]
  simp only [product?_eq_none_iff.mpr hb, product?_eq_none_iff.mpr ha, Option.map_none]

theorem ofExpr?_of_not_sum {e : Expr Typed} (h : ¬ e.IsSum) :
    ofExpr? e = (product? e).map fun factors => ⟨factors.1, zeroIntercept e, factors.2⟩ := by
  have hoperands : e.operands? .plus = none := by
    rw [Option.eq_none_iff_forall_ne_some]
    rintro ⟨a, b⟩ hsum
    exact h ⟨a, b, Expr.operands?_eq_some.mp hsum⟩
  rw [ofExpr?, hoperands]

end LinearPredictor

/-! ## Ways to write a distribution -/

/-- The ways to write a distribution: in a sampling statement, or as the call of a mass function. -/
def writings : List (Option DensitySuffix) := none :: massSuffixes.map some

/-- What stands behind the name of the family. -/
def suffixText : Option DensitySuffix → String
  | none   => ""
  | some s => s.text

/-- Fuses a distribution, in whichever way it is written. -/
def fuseWritten? (written : Option DensitySuffix) (family : String) (args : List (Expr Typed)) :
    Option Fusion :=
  match written with
  | none   => fuseSampling? family args
  | some s => fuseCall? (family ++ s.text) args

theorem fuseWritten?_eq {written : Option DensitySuffix} (h : written ∈ writings) (family : String)
    (args : List (Expr Typed)) :
    fuseWritten? written family args = fuse? family (suffixText written) args := by
  cases written with
  | none => rfl
  | some s =>
    have hs : s ∈ massSuffixes := by simpa [writings] using h
    exact fuseCall?_append family hs args

/-- The name says that the linear model is built in: `_glm` stands before its suffix. -/
def IsGlmName (name : String) : Prop :=
  ∃ stem, ∃ written ∈ writings, name = stem ++ "_glm" ++ suffixText written

namespace LinkedFamily

/-- A predictor under the link of the family. -/
def underLink (f : LinkedFamily) (note : Typed) (predictor : Expr Typed) : Expr Typed :=
  ⟨note, .call .library f.link [predictor]⟩

variable (f : LinkedFamily) (suffix : String) (outcome : Expr Typed) (rest : List (Expr Typed))

/-- The family with the linear model built in. -/
def withModel (x α β : Expr Typed) : Fusion :=
  ⟨f.family, f.linked ++ "_glm" ++ suffix, [outcome, x, α, β] ++ rest⟩

/-- The family with nothing but its link built in. -/
def withLink (predictor : Expr Typed) : Fusion :=
  ⟨f.family, f.linked ++ suffix, [outcome, predictor] ++ rest⟩

end LinkedFamily

theorem isGlmName_withModel (f : LinkedFamily) {written : Option DensitySuffix}
    (h : written ∈ writings) (outcome : Expr Typed) (rest : List (Expr Typed))
    (x α β : Expr Typed) :
    IsGlmName (f.withModel (suffixText written) outcome rest x α β).name :=
  ⟨f.linked, written, h, rfl⟩

/-- No family with its link ends in what stands for the linear model, and a suffix behind it can be
told apart from all others. -/
theorem not_isGlmName_withLink {f : LinkedFamily} (hf : f ∈ LinkedFamily.all)
    (written : Option DensitySuffix) (outcome : Expr Typed) (rest : List (Expr Typed))
    (predictor : Expr Typed) :
    ¬ IsGlmName (f.withLink (suffixText written) outcome rest predictor).name := by
  have hlinked : ∀ f ∈ LinkedFamily.all,
      ending f.linked ∉ [['m', 'l', 'g'], ['f', 'd', 'p'], ['f', 'm', 'p']] := by
    decide
  have hglm (stem : String) : ending (stem ++ "_glm") = ['m', 'l', 'g'] := by
    rw [ending_append (by decide)]
    decide
  rintro ⟨stem, written', -, hname⟩
  replace hname : f.linked ++ suffixText written = stem ++ "_glm" ++ suffixText written' := hname
  cases written with
  | none =>
    rw [suffixText, String.append_empty] at hname
    apply hlinked f hf
    rw [hname]
    cases written' with
    | none => simp [suffixText, hglm]
    | some t => rcases ending_append_text (stem ++ "_glm") t with h | h <;> simp [suffixText, h]
  | some s =>
    cases written' with
    | none =>
      have hending := ending_append_text f.linked s
      rw [suffixText, suffixText, String.append_empty] at hname
      rw [hname, hglm] at hending
      exact absurd hending (by decide)
    | some t =>
      obtain ⟨hstem, -⟩ := DensitySuffix.append_text_inj.mp hname
      apply hlinked f hf
      rw [hstem, hglm]
      exact List.mem_cons_self

/-! ## Fusion under the link -/

theorem LinkedFamily.find?_family {f : LinkedFamily} (hf : f ∈ all) : find? f.family = some f := by
  revert f
  decide

/-- A product is no sum. -/
theorem Expr.IsProductOf.not_sum {e x β : Expr Typed} (h : e.IsProductOf x β) : ¬ e.IsSum := by
  rintro ⟨a, b, hsum⟩
  have hname := h.1.symm.trans hsum
  rw [Node.call.injEq] at hname
  exact absurd hname.2.1 (by decide)

section Written

variable {f : LinkedFamily} (hf : f ∈ LinkedFamily.all) {written : Option DensitySuffix}
  (hwritten : written ∈ writings) (outcome : Expr Typed) (rest : List (Expr Typed))

include hf hwritten

/-- Under the link of the family it only matters how the predictor is read. -/
theorem fuseWritten?_underLink (link : Typed) (predictor : Expr Typed) :
    fuseWritten? written f.family (outcome :: f.underLink link predictor :: rest) =
      some (match LinearPredictor.ofExpr? predictor with
        | some p =>
          f.withModel (suffixText written) outcome rest p.design p.intercept p.coefficients
        | none => f.withLink (suffixText written) outcome rest predictor) := by
  have hlink : (f.underLink link predictor).libraryArgs? f.link = some [predictor] :=
    Expr.libraryArgs?_eq_some.mpr rfl
  rw [fuseWritten?_eq hwritten]
  simp only [fuse?, LinkedFamily.find?_family hf, Option.bind_eq_bind, Option.bind_some, hlink]
  cases LinearPredictor.ofExpr? predictor <;> rfl

/-- A product alone gets an intercept of zero. -/
theorem fuseWritten?_product {predictor x β : Expr Typed} (h : predictor.IsProductOf x β)
    (link : Typed) :
    fuseWritten? written f.family (outcome :: f.underLink link predictor :: rest) =
      some (f.withModel (suffixText written) outcome rest x
        (LinearPredictor.zeroIntercept predictor) β) := by
  rw [fuseWritten?_underLink hf hwritten, LinearPredictor.ofExpr?_of_not_sum h.not_sum,
    LinearPredictor.product?_eq_some_iff.mpr h]
  rfl

/-- What is neither a sum nor a product is passed on. -/
theorem fuseWritten?_other {predictor : Expr Typed} (hsum : ¬ predictor.IsSum)
    (hproduct : ¬ predictor.IsProduct) (link : Typed) :
    fuseWritten? written f.family (outcome :: f.underLink link predictor :: rest) =
      some (f.withLink (suffixText written) outcome rest predictor) := by
  rw [fuseWritten?_underLink hf hwritten, LinearPredictor.ofExpr?_of_not_sum hsum,
    LinearPredictor.product?_eq_none_iff.mpr hproduct]
  rfl

/-- Nothing is fused without the link of the family over a single predictor. -/
theorem fuseWritten?_unlinked {parameter : Expr Typed}
    (h : ∀ predictor, parameter.node ≠ .call .library f.link [predictor]) :
    fuseWritten? written f.family (outcome :: parameter :: rest) = none := by
  rw [fuseWritten?_eq hwritten]
  simp only [fuse?, LinkedFamily.find?_family hf, Option.bind_eq_bind, Option.bind_some]
  split
  · next predictor hlink => exact absurd (Expr.libraryArgs?_eq_some.mp hlink) (h predictor)
  · rfl

end Written

/-- Where the intercept of a predictor is found. The function `fused` gives what a family with an
outcome and further arguments is fused to, for each of its parameters. -/
structure InterceptRules (f : LinkedFamily) (suffix : String) (outcome : Expr Typed)
    (rest : List (Expr Typed)) (fused : Expr Typed → Option Fusion) : Prop where
  /-- Beside one product the other side is the intercept, in either order. -/
  one : ∀ a b x β, a.IsProductOf x β → ¬ b.IsProduct → ∀ link link' note note',
    fused (f.underLink link (.plus note a b)) = some (f.withModel suffix outcome rest x b β) ∧
      fused (f.underLink link' (.plus note' b a)) = some (f.withModel suffix outcome rest x b β)
  /-- Without a product the sum is passed on, in either order, under a name without the model. -/
  neither : ∀ a b, ¬ a.IsProduct → ¬ b.IsProduct → ∀ link link' note note',
    fused (f.underLink link (.plus note a b)) =
        some (f.withLink suffix outcome rest (.plus note a b)) ∧
      fused (f.underLink link' (.plus note' b a)) =
        some (f.withLink suffix outcome rest (.plus note' b a)) ∧
      ¬ IsGlmName (f.linked ++ suffix)
  /-- Of two products the right one counts and the left one is the intercept. -/
  both : ∀ a b x β x' β', a.IsProductOf x β → b.IsProductOf x' β' → ∀ link link' note note',
    fused (f.underLink link (.plus note a b)) = some (f.withModel suffix outcome rest x' a β') ∧
      fused (f.underLink link' (.plus note' b a)) = some (f.withModel suffix outcome rest x b β)
  /-- What is no sum gets the model exactly if it is a product itself. -/
  glm_iff : ∀ predictor, ¬ predictor.IsSum → ∀ link,
    (∃ fusion, fused (f.underLink link predictor) = some fusion ∧ IsGlmName fusion.name) ↔
      predictor.IsProduct
  /-- The intercept is an integer zero then, at the place of the predictor. -/
  alone : ∀ predictor x β, predictor.IsProductOf x β → ∀ link,
    fused (f.underLink link predictor) = some (f.withModel suffix outcome rest x
      ⟨⟨.int, .dataOnly, predictor.note.span⟩, .literal .int "0"⟩ β)
  /-- Otherwise it is passed on. -/
  passed : ∀ predictor, ¬ predictor.IsSum → ¬ predictor.IsProduct → ∀ link,
    fused (f.underLink link predictor) = some (f.withLink suffix outcome rest predictor)
  /-- Any other parameter is not fused at all. -/
  unlinked : ∀ parameter, (∀ predictor, parameter.node ≠ .call .library f.link [predictor]) →
    fused parameter = none

/-- The rules for intercepts hold for every family with a link, whatever the outcome and the further
arguments are, in sampling statements and in calls under both suffixes. -/
theorem fuse_intercepts (f : LinkedFamily) (hf : f ∈ LinkedFamily.all)
    (written : Option DensitySuffix) (hwritten : written ∈ writings) (outcome : Expr Typed)
    (rest : List (Expr Typed)) :
    InterceptRules f (suffixText written) outcome rest fun parameter =>
      fuseWritten? written f.family (outcome :: parameter :: rest) := by
  have hfused := fuseWritten?_underLink hf hwritten outcome rest
  refine ⟨?_, ?_, ?_, ?_, ?_, ?_, ?_⟩
  · intro a b x β ha hb link link' note note'
    simp only [hfused, LinearPredictor.ofExpr?_plus_left ha hb,
      LinearPredictor.ofExpr?_plus_right ha, and_self]
  · intro a b ha hb link link' note note'
    simp only [hfused, LinearPredictor.ofExpr?_plus_neither ha hb,
      LinearPredictor.ofExpr?_plus_neither hb ha, true_and]
    exact not_isGlmName_withLink hf written outcome rest (.plus note a b)
  · intro a b x β x' β' ha hb link link' note note'
    simp only [hfused, LinearPredictor.ofExpr?_plus_right ha, LinearPredictor.ofExpr?_plus_right hb,
      and_self]
  · intro predictor hsum link
    constructor
    · rintro ⟨fusion, hfusion, hglm⟩
      apply Classical.byContradiction
      intro hproduct
      -- what is no product is passed on, under a name that says so
      rw [fuseWritten?_other hf hwritten outcome rest hsum hproduct] at hfusion
      cases hfusion
      exact not_isGlmName_withLink hf written outcome rest predictor hglm
    · rintro ⟨x, β, hproduct⟩
      exact ⟨_, fuseWritten?_product hf hwritten outcome rest hproduct link,
        isGlmName_withModel f hwritten outcome rest _ _ _⟩
  · intro predictor x β hproduct
    exact fuseWritten?_product hf hwritten outcome rest hproduct
  · intro predictor hsum hproduct
    exact fuseWritten?_other hf hwritten outcome rest hsum hproduct
  · intro parameter hparameter
    exact fuseWritten?_unlinked hf hwritten outcome rest hparameter

/-- A count with a parameter behind its linear predictor, which is written in both orders. -/
theorem fuse_intercepts_dispersed :
    let x : Expr Typed := ⟨.data .matrix, .var "x"⟩
    let α : Expr Typed := ⟨.data .real, .var "alpha"⟩
    let β : Expr Typed := ⟨.data .vector, .var "beta"⟩
    let y : Expr Typed := ⟨.data .int, .var "y"⟩
    let φ : Expr Typed := ⟨.data .real, .var "phi"⟩
    let product : Expr Typed := ⟨.data .vector, .call .library "Times__" [x, β]⟩
    let fused (predictor : Expr Typed) := fuseCall? "neg_binomial_2_lpmf"
      [y, ⟨.data .vector, .call .library "exp" [predictor]⟩, φ]
    let regression : Fusion :=
      ⟨"neg_binomial_2", "neg_binomial_2_log_glm_lpmf", [y, x, α, β, φ]⟩
    fused (.plus (.data .vector) α product) = some regression ∧
      fused (.plus (.data .vector) product α) = some regression := by
  intro x α β y φ product fused regression
  have hvariable : ¬ α.IsProduct := by
    rintro ⟨x', β', hnode, -⟩
    cases hnode
  have hrules := fuse_intercepts ⟨"neg_binomial_2", "exp", "neg_binomial_2_log"⟩ (by decide)
    (some .lpmf) (by decide) y [φ]
  obtain ⟨hleft, hright⟩ := hrules.one product α x β ⟨rfl, rfl⟩ hvariable (.data .vector)
    (.data .vector) (.data .vector) (.data .vector)
  exact ⟨hright, hleft⟩

end ModelForm
