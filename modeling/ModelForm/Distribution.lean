import ModelForm.Total

/-!
# Distributions

The families of distributions that the library provides, with the functions that each family has,
and the suffixes by which the name of a function tells that it is a density.

`densitySuffix?` finds the density suffix of a name and `stripDensitySuffix` cuts it off. A suffix
alone is no density's name: something has to stand before it. The cut is made at a count of bytes,
and it never goes through a character (`isSome_stripDensitySuffix?`).
-/

namespace ModelForm

/-! ## Suffixes -/

/-- What stands before a suffix, for a name that ends in it. -/
def stripSuffix? (name suffix : String) : Option String :=
  if suffix.toList.isSuffixOf name.toList then
    some (String.ofList (name.toList.take (name.toList.length - suffix.toList.length)))
  else
    none

/-- The text in the first bytes of a text, unless they end inside a character or behind the text. -/
def takeBytes? (text : String) (count : Nat) : Option String :=
  if h : String.Pos.Raw.IsValid text ⟨count⟩ then
    some (text.extract text.startPos (text.pos ⟨count⟩ h))
  else
    none

/-- No character reaches from one text into the next. -/
theorem isValid_append (front back : String) :
    String.Pos.Raw.IsValid (front ++ back) ⟨front.utf8ByteSize⟩ :=
  String.Pos.Raw.isValid_iff_exists_append.mpr ⟨front, back, rfl, rfl⟩

theorem takeBytes?_append (front back : String) :
    takeBytes? (front ++ back) front.utf8ByteSize = some front := by
  rw [takeBytes?, dif_pos (isValid_append front back), Option.some.injEq, ← String.toByteArray_inj,
    String.toByteArray_extract, String.toByteArray_append]
  exact ByteArray.extract_append_eq_left rfl

/-- The suffixes of density and mass functions, normalized or not. -/
inductive DensitySuffix where
  | lpdf
  | lupdf
  | lpmf
  | lupmf
  deriving DecidableEq, Repr

namespace DensitySuffix

def all : List DensitySuffix := [.lpdf, .lupdf, .lpmf, .lupmf]

def text : DensitySuffix → String
  | .lpdf  => "_lpdf"
  | .lupdf => "_lupdf"
  | .lpmf  => "_lpmf"
  | .lupmf => "_lupmf"

/-- Whether a name ends in the suffix and has more to it. -/
def ends (s : DensitySuffix) (name : String) : Bool :=
  s.text.utf8ByteSize < name.utf8ByteSize && s.text.toList.isSuffixOf name.toList

theorem ends_iff {s : DensitySuffix} {name : String} :
    s.ends name ↔ ∃ stem, name = stem ++ s.text ∧ stem ≠ "" := by
  rw [ends, Bool.and_eq_true, decide_eq_true_iff, List.isSuffixOf_iff_suffix]
  constructor
  · rintro ⟨hsize, front, hfront⟩
    have hname : name = String.ofList front ++ s.text := by
      rw [← String.toList_inj, String.toList_append, String.toList_ofList, hfront]
    refine ⟨String.ofList front, hname, ?_⟩
    intro hempty
    rw [hname, hempty, String.empty_append] at hsize
    exact Nat.lt_irrefl _ hsize
  · rintro ⟨stem, rfl, hstem⟩
    have hsize : stem.utf8ByteSize ≠ 0 := mt String.utf8ByteSize_eq_zero_iff.mp hstem
    rw [String.utf8ByteSize_append, String.toList_append]
    exact ⟨by omega, List.suffix_append _ _⟩

/-- What is found among suffixes stands behind a stem. -/
theorem exists_stem {suffixes : List DensitySuffix} {s : DensitySuffix} {name : String}
    (h : suffixes.find? (fun t => t.ends name) = some s) :
    ∃ stem, name = stem ++ s.text ∧ stem ≠ "" := by
  have hends := List.find?_some h
  exact ends_iff.mp hends

end DensitySuffix

def densitySuffix? (name : String) : Option DensitySuffix :=
  DensitySuffix.all.find? fun s => s.ends name

/-- The name without its density suffix, if it has one, and unless a character is cut through. -/
def stripDensitySuffix? (name : String) : Option String :=
  match densitySuffix? name with
  | some s => takeBytes? name (name.utf8ByteSize - s.text.utf8ByteSize)
  | none   => some name

theorem takeBytes?_append_sub (front back : String) :
    takeBytes? (front ++ back) ((front ++ back).utf8ByteSize - back.utf8ByteSize) = some front := by
  rw [String.utf8ByteSize_append, Nat.add_sub_cancel, takeBytes?_append]

theorem isSome_stripDensitySuffix? (name : String) : (stripDensitySuffix? name).isSome := by
  unfold stripDensitySuffix?
  split
  · next s hs =>
    obtain ⟨stem, rfl, -⟩ := DensitySuffix.exists_stem hs
    rw [takeBytes?_append_sub, Option.isSome_some]
  · rfl

def stripDensitySuffix (name : String) : String :=
  (stripDensitySuffix? name).get (isSome_stripDensitySuffix? name)

/-! ## Families -/

inductive Support where
  | continuous
  | discrete
  deriving DecidableEq, Repr

namespace Support

def all : List Support := [.continuous, .discrete]

def tag : Support → String
  | .continuous => "Continuous"
  | .discrete   => "Discrete"

/-- The suffix of the normalized log density or log mass function. -/
def suffix : Support → DensitySuffix
  | .continuous => .lpdf
  | .discrete   => .lpmf

end Support

/-- The functions that a family may have. -/
inductive Variant where
  /-- The log density or log mass. -/
  | density
  /-- The same up to a constant. -/
  | unnormalized
  | cdf
  /-- The logarithm of the distribution function. -/
  | lcdf
  /-- The logarithm of the complement of the distribution function. -/
  | lccdf
  /-- A generator of random values. -/
  | rng
  deriving DecidableEq, Repr

namespace Variant

def all : List Variant := [.density, .unnormalized, .cdf, .lcdf, .lccdf, .rng]

def tag : Variant → String
  | .density      => "DENSITY"
  | .unnormalized => "UNNORMALIZED"
  | .cdf          => "CDF"
  | .lcdf         => "LCDF"
  | .lccdf        => "LCCDF"
  | .rng          => "RNG"

def bit : Variant → Nat
  | .density      => 1
  | .unnormalized => 2
  | .cdf          => 4
  | .lcdf         => 8
  | .lccdf        => 16
  | .rng          => 32

def densities : List Variant := [.density, .unnormalized]

def sampled : List Variant := densities ++ [.rng]

end Variant

structure Family where
  name : String
  support : Support
  variants : List Variant
  deriving DecidableEq, Repr

namespace Family

def provides (f : Family) (v : Variant) : Bool := f.variants.contains v

/-- The functions of the family, each once and in the order of the variants. -/
def provided (f : Family) : List Variant := Variant.all.filter f.provides

def bits (f : Family) : Nat := total (f.provided.map Variant.bit)

end Family

/-! ## The library's families -/

/-- Families in the order in which they are looked at. -/
abbrev Catalog := List Family

def Catalog.builtin : Catalog :=
  [ -- unbounded
    ⟨"normal", .continuous, Variant.all⟩,
    ⟨"std_normal", .continuous, Variant.all⟩,
    ⟨"student_t", .continuous, Variant.all⟩,
    ⟨"cauchy", .continuous, Variant.all⟩,
    ⟨"double_exponential", .continuous, Variant.all⟩,
    ⟨"logistic", .continuous, Variant.all⟩,
    ⟨"gumbel", .continuous, Variant.all⟩,
    ⟨"skew_normal", .continuous, Variant.all⟩,
    -- positive
    ⟨"lognormal", .continuous, Variant.all⟩,
    ⟨"chi_square", .continuous, Variant.all⟩,
    ⟨"inv_chi_square", .continuous, Variant.all⟩,
    ⟨"exponential", .continuous, Variant.all⟩,
    ⟨"gamma", .continuous, Variant.all⟩,
    ⟨"inv_gamma", .continuous, Variant.all⟩,
    ⟨"weibull", .continuous, Variant.all⟩,
    ⟨"frechet", .continuous, Variant.all⟩,
    ⟨"pareto", .continuous, Variant.all⟩,
    -- bounded
    ⟨"beta", .continuous, Variant.all⟩,
    ⟨"uniform", .continuous, Variant.all⟩,
    ⟨"von_mises", .continuous, Variant.all⟩,
    -- of several variables
    ⟨"multi_normal", .continuous, Variant.sampled⟩,
    ⟨"multi_normal_cholesky", .continuous, Variant.sampled⟩,
    ⟨"multi_student_t", .continuous, Variant.sampled⟩,
    ⟨"dirichlet", .continuous, Variant.sampled⟩,
    ⟨"lkj_corr_cholesky", .continuous, Variant.sampled⟩,
    ⟨"wishart", .continuous, Variant.sampled⟩,
    ⟨"normal_id_glm", .continuous, Variant.densities⟩,
    -- discrete
    ⟨"bernoulli", .discrete, Variant.all⟩,
    ⟨"bernoulli_logit", .discrete, Variant.sampled⟩,
    ⟨"bernoulli_logit_glm", .discrete, Variant.sampled⟩,
    ⟨"binomial", .discrete, Variant.all⟩,
    ⟨"binomial_logit", .discrete, Variant.densities⟩,
    ⟨"beta_binomial", .discrete, Variant.all⟩,
    ⟨"hypergeometric", .discrete, Variant.sampled⟩,
    ⟨"categorical", .discrete, Variant.sampled⟩,
    ⟨"categorical_logit", .discrete, Variant.sampled⟩,
    ⟨"categorical_logit_glm", .discrete, Variant.densities⟩,
    ⟨"poisson", .discrete, Variant.all⟩,
    ⟨"poisson_log", .discrete, Variant.sampled⟩,
    ⟨"poisson_log_glm", .discrete, Variant.densities⟩,
    ⟨"neg_binomial", .discrete, Variant.all⟩,
    ⟨"neg_binomial_2", .discrete, Variant.all⟩,
    ⟨"neg_binomial_2_log", .discrete, Variant.sampled⟩,
    ⟨"neg_binomial_2_log_glm", .discrete, Variant.densities⟩,
    ⟨"ordered_logistic", .discrete, Variant.sampled⟩,
    ⟨"multinomial", .discrete, Variant.sampled⟩ ]

end ModelForm
