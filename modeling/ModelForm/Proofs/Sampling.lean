import ModelForm.Proofs.Building

/-!
# Sampling statements and calls of mass functions

The distribution of an outcome can be written as a sampling statement, which names the family, or as
a call of one of its mass functions, which has a suffix. The two are built in different ways: the
name of the call is first looked up among the deprecated ones, and its suffix is searched for. What
is built is the same:

* `Node.modernHead_append_text` — a name with a density suffix is never deprecated, whatever stands
  before the suffix.
* `Expr.value_apply_mass` — building the call of a mass function is fusing the family.
* `Stmt.sample_agrees` — the statement and the call get the same family and the same arguments, and
  the outcome is never lost.
-/

namespace ModelForm

/-- No rule for deprecated calls applies to a name with a density suffix. -/
theorem Node.modernHead_append_text {γ : Type} (families : Catalog) (kind : CallKind)
    (stem : String) (s : DensitySuffix) (args : List γ) :
    (call kind (stem ++ s.text) args).modernHead (.ofCatalog families) =
      .call kind (stem ++ s.text) args := by
  have hending := ending_append_text stem s
  generalize stem ++ s.text = name at hending
  obtain ⟨rfl, -⟩ | ⟨test, yes, no, rfl, -⟩ | ⟨-, -, hhead⟩ :=
    modernHead_call (.ofCatalog families) kind name args
  · exact absurd hending (by decide)
  · exact absurd hending (by decide)
  · have hrename : (DeprecationTable.ofCatalog families).rename? kind name = none := by
      apply DeprecationTable.rename?_eq_none
      intro r hr
      rcases ending_deprecated hr with hold | rfl | rfl
      · rw [hold] at hending
        exact absurd hending (by decide)
      · exact absurd hending (by decide)
      · exact absurd hending (by decide)
    rw [hhead, DeprecationTable.renamed, hrename, Option.getD_none]

/-- The call of a mass function is built from what fusion makes of its family. -/
theorem Expr.value_apply_mass (note : Typed) (family : String) {s : DensitySuffix}
    (hs : s ∈ massSuffixes) (args : List (Expr Typed)) :
    let fused := (Stmt.fuseSampled family args).value
    (apply note (.conditional .library) (family ++ s.text) args).value =
      ⟨note, .call (.conditional .library) (fused.1 ++ s.text) fused.2⟩ := by
  intro fused
  have hmodern := Node.modernHead_append_text Catalog.builtin (.conditional .library) family s args
  have hfuse : fuseCall? (family ++ s.text) args = (fuseSampling? family args).map fun fusion =>
      { fusion with name := fusion.name ++ s.text } := by
    rw [fuseCall?_append family hs, fuse?_eq_map, fuseSampling?]
  rw [value_apply hmodern]
  cases hfusion : fuseSampling? family args with
  | none =>
    rw [hfusion, Option.map_none] at hfuse
    have hsame : fused = (family, args) := by
      simp only [fused, Stmt.fuseSampled, hfusion, Traced.value_pure]
    -- the identities are about plain calls only
    have hplain : CallKind.conditional .library ≠ .library := by decide
    rw [hsame]
    exact value_applyModern (fun _ => hfuse) fun h => absurd h hplain
  | some fusion =>
    rw [hfusion, Option.map_some] at hfuse
    have hnew : fused = (fusion.name, fusion.args) := by
      simp only [fused, Stmt.fuseSampled, hfusion, Traced.value_bind, Traced.value_pure]
    have hlibrary : CallKind.isLibrary (.conditional .library) = true := rfl
    rw [hnew, applyModern, if_pos hlibrary, hfuse]
    rfl

namespace Stmt

/-- A sampling statement is always built: fusion leaves the outcome in front, and the outcome and
the truncation are those that were given. The call of a mass function of the same family, with the
outcome as its first argument, is built with the same new family and the same new arguments, under
each suffix. -/
theorem sample_agrees (outcome : Expr Typed) (distribution : String) (args : List (Expr Typed))
    (truncation : Truncation (Expr Typed)) :
    ∃ newDistribution newArgs,
      (fuseSampled distribution (outcome :: args)).value = (newDistribution, outcome :: newArgs) ∧
        (sample? outcome distribution args truncation).value =
          some (.tilde outcome newDistribution newArgs truncation) ∧
        (sample outcome distribution args truncation).value =
          .tilde outcome newDistribution newArgs truncation ∧
        ∀ note, ∀ s ∈ massSuffixes,
          (Expr.apply note (.conditional .library) (distribution ++ s.text)
              (outcome :: args)).value =
            ⟨note, .call (.conditional .library) (newDistribution ++ s.text)
              (outcome :: newArgs)⟩ := by
  have hbuilt := value_sample? outcome distribution args truncation
  have hhead := head?_fuseSampled distribution (outcome :: args)
  have hcall (note : Typed) (s : DensitySuffix) (hs : s ∈ massSuffixes) :=
    Expr.value_apply_mass note distribution hs (outcome :: args)
  -- both the statement and the call are made of what fusion leaves
  generalize (fuseSampled distribution (outcome :: args)).value = fused at hbuilt hhead hcall ⊢
  obtain ⟨newDistribution, sampled⟩ := fused
  obtain ⟨newArgs, rfl⟩ : ∃ newArgs, sampled = outcome :: newArgs :=
    List.head?_eq_some_iff.mp hhead
  refine ⟨newDistribution, newArgs, rfl, hbuilt, ?_, hcall⟩
  simp only [sample, hbuilt, List.tail_cons, Option.get_some]

/-- A count with a linear predictor under the link of its family. -/
def linkedCount : List (Expr Typed) :=
  let product : Expr Typed := ⟨.data .vector, .call .library "Times__"
    [⟨.data .matrix, .var "x"⟩, ⟨.data .vector, .var "beta"⟩]⟩
  [⟨.data .vector, .call .library "exp" [⟨.data .vector, .call .library "Plus__"
    [⟨.data .real, .var "alpha"⟩, product]⟩]⟩]

theorem sample_agrees_linkedCount :
    let outcome : Expr Typed := ⟨.data .int, .var "y"⟩
    let fused : List (Expr Typed) := [⟨.data .matrix, .var "x"⟩, ⟨.data .real, .var "alpha"⟩,
      ⟨.data .vector, .var "beta"⟩]
    (sample outcome "poisson" linkedCount .unbounded).value =
        .tilde outcome "poisson_log_glm" fused .unbounded ∧
      (Expr.apply (.data .real) (.conditional .library) "poisson_lupmf"
          (outcome :: linkedCount)).value =
        ⟨.data .real, .call (.conditional .library) "poisson_log_glm_lupmf"
          (outcome :: fused)⟩ := by
  intro outcome fused
  have hsample : (sample outcome "poisson" linkedCount .unbounded).value =
      .tilde outcome "poisson_log_glm" fused .unbounded := rfl
  obtain ⟨newDistribution, newArgs, -, -, hsame, hcall⟩ :=
    sample_agrees outcome "poisson" linkedCount .unbounded
  rw [hsample] at hsame
  cases hsame
  exact ⟨hsample, hcall (.data .real) .lupmf (by decide)⟩

end Stmt

end ModelForm
