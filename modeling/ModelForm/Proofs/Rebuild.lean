import ModelForm.Proofs.Building
import ModelForm.Proofs.Meaning
import ModelForm.Proofs.Tagging

/-!
# Building keeps the meaning

Building an expression anew, from the leaves to the root, rewrites calls whose arguments were
rewritten before. The rewrites look at types two and three levels down, so what has to be known of a
built tree is more than its value: the nodes that a later rewrite may look at have values of the
types that they are annotated with. This is `Interpretation.Sound`. It leaves out the arguments of
densities, which nothing looks into, and where an intercept may have been put that no type checker
has seen.

* `Interpretation.denotes_simplify?`, `Interpretation.density_fuse?` — each rewrite of a call, from
  the law that it follows.
* `Interpretation.denotes_build` — what one step of building keeps.
* `Interpretation.eval_rebuild` — what building a whole tree keeps.
-/

namespace ModelForm

/-- The children that a rewrite may look into: not the arguments of a density. -/
def Node.exposed {γ : Type} : Node γ → List γ
  | .call (.conditional _) _ _ => []
  | node                       => node.children

theorem Node.children_of_exposed {γ : Type} {n : Node γ} {c : γ} (h : c ∈ n.exposed) :
    c ∈ n.children := by
  unfold exposed at h
  split at h
  · cases h
  · exact h

namespace Interpretation

variable {V : Type} (M : Interpretation V)

/-! ## Sound trees -/

/-- A tree whose root has a value of its type, and so on for all nodes that a rewrite may look
at. -/
inductive Sound : Expr Typed → Prop
  | intro (e : Expr Typed) (root : M.HasType (M.eval e) e.note.type)
      (inner : ∀ c ∈ e.node.exposed, Sound c) : Sound e

/-- A sound tree of the given type and value. -/
structure Denotes (e : Expr Typed) (type : ValueType) (v : V) : Prop where
  eval_eq : M.eval e = v
  type_eq : e.note.type = type
  sound : M.Sound e

variable {M}

theorem Sound.root {e : Expr Typed} (h : M.Sound e) : M.HasType (M.eval e) e.note.type := by
  cases h with
  | intro _ root _ => exact root

theorem Sound.exposed {e c : Expr Typed} (h : M.Sound e) (hc : c ∈ e.node.exposed) : M.Sound c := by
  cases h with
  | intro _ _ inner => exact inner c hc

/-- The arguments of a plain library call are exposed. -/
theorem Sound.arg {e a : Expr Typed} {name : String} {args : List (Expr Typed)} (h : M.Sound e)
    (he : e.node = .call .library name args) (ha : a ∈ args) : M.Sound a :=
  h.exposed (by rw [he]; exact ha)

theorem Sound.hasType {e : Expr Typed} {type : ValueType} (h : M.Sound e)
    (htype : e.note.type = type) : M.HasType (M.eval e) type :=
  htype ▸ h.root

theorem wellTyped_iff {e : Expr Typed} :
    M.WellTyped e ↔ M.HasType (M.eval e) e.note.type ∧ ∀ c ∈ e.node.children, M.WellTyped c :=
  Expr.all_iff

theorem WellTyped.root {e : Expr Typed} (h : M.WellTyped e) : M.HasType (M.eval e) e.note.type :=
  (wellTyped_iff.mp h).1

theorem WellTyped.child {e c : Expr Typed} (h : M.WellTyped e) (hc : c ∈ e.node.children) :
    M.WellTyped c :=
  (wellTyped_iff.mp h).2 c hc

theorem eval_call {e : Expr Typed} {kind : CallKind} {name : String} {args : List (Expr Typed)}
    (h : e.node = .call kind name args) : M.eval e = M.call kind name (args.map M.eval) := by
  rw [eval_eq, h]
  rfl

/-- A node over sound children denotes a value of its own type that its children give rise to. -/
theorem Denotes.ofNode {note : Typed} {node : Node (Expr Typed)} {v : V}
    (hvalue : M.node (node.map M.eval) = v) (htype : M.HasType v note.type)
    (hinner : ∀ c ∈ node.exposed, M.Sound c) : M.Denotes ⟨note, node⟩ note.type v := by
  have heval : M.eval ⟨note, node⟩ = v := (M.eval_eq _).trans hvalue
  exact ⟨heval, rfl, Sound.intro _ (by rw [heval]; exact htype) hinner⟩

theorem eval_paren (note : Typed) (e : Expr Typed) : M.eval ⟨note, .paren e⟩ = M.eval e :=
  M.eval_eq _

theorem Sound.paren {e : Expr Typed} (h : M.Sound e) : M.Sound ⟨e.note, .paren e⟩ := by
  refine Sound.intro _ ?_ ?_
  · rw [eval_paren]
    exact h.root
  · intro c hc
    rw [List.mem_singleton.mp hc]
    exact h

/-! ## Identities -/

theorem eval_eq_of_beq {a b : Expr Typed} (h : a == b) : M.eval a = M.eval b :=
  Expr.para_eq_of_beq M.node h

/-- The transpose of something that is compared to another expression is the transpose of that. -/
theorem eval_of_transposed? {e other : Expr Typed} (h : e.transposed?.any (· == other)) :
    M.eval e = M.library "Transpose__" [M.eval other] := by
  obtain ⟨a, ha, heq⟩ := (Option.any_eq_true _ _).mp h
  unfold Expr.transposed? at ha
  split at ha
  · next x hcall =>
    cases ha
    rw [eval_call (Expr.libraryArgs?_eq_some.mp hcall), List.map_singleton, eval_eq_of_beq heq]
    rfl
  · cases ha

/-- A numeral is the text of a numeric literal. -/
theorem numeral?_eq_some {e : Expr Typed} {n : Numeral} (h : e.numeral? = some n) :
    ∃ kind ∈ [LiteralKind.int, .real], ∃ text, e.node = .literal kind text ∧
      Numeral.read? text = some n := by
  unfold Expr.numeral? at h
  split at h
  · next text hnode => exact ⟨.int, by decide, text, hnode, h⟩
  · next text hnode => exact ⟨.real, by decide, text, hnode, h⟩
  · cases h

/-- A call of one argument takes the place of another expression of the same value. -/
theorem Denotes.libraryCall {note : Typed} {name : String} {x : Expr Typed} {v : V}
    (hvalue : M.library name [M.eval x] = v) (htype : M.HasType v note.type) (hx : M.Sound x) :
    M.Denotes (Expr.libraryCall note name x) note.type v := by
  refine Denotes.ofNode hvalue htype ?_
  intro c hc
  rw [List.mem_singleton.mp hc]
  exact hx

/-- A product that is written as a call of one expression twice. -/
theorem Denotes.selfProduct {note : Typed} {name new : String} {a b : Expr Typed} (h : a == b)
    (hvalue : M.library name [M.eval a, M.eval a] = M.library new [M.eval a])
    (htype : M.HasType (M.library name [M.eval a, M.eval b]) note.type) (ha : M.Sound a) :
    M.Denotes (Expr.libraryCall note new a) note.type (M.library name [M.eval a, M.eval b]) := by
  rw [← eval_eq_of_beq h] at htype ⊢
  exact Denotes.libraryCall hvalue.symm htype ha

theorem eval_product {e design coefficients : Expr Typed}
    (h : LinearPredictor.product? e = some (design, coefficients)) :
    M.eval e = M.library "Times__" [M.eval design, M.eval coefficients] :=
  eval_call (LinearPredictor.product?_eq_some.mp h).1

/-- The design matrix of a product that may be looked into is a matrix. -/
theorem Sound.design {e design coefficients : Expr Typed} (he : M.Sound e)
    (h : LinearPredictor.product? e = some (design, coefficients)) :
    M.HasType (M.eval design) .matrix := by
  obtain ⟨hnode, hmatrix⟩ := LinearPredictor.product?_eq_some.mp h
  exact (he.arg hnode List.mem_cons_self).hasType hmatrix

section Identities

variable (hM : M.Lawful)
include hM

theorem eval_of_isTwo {e : Expr Typed} {n : Numeral} (h : e.numeral? = some n) (htwo : n.isTwo) :
    M.eval e = M.two := by
  obtain ⟨kind, hkind, text, hnode, hread⟩ := numeral?_eq_some h
  rw [eval_eq, hnode]
  exact hM.literal_two kind hkind text n hread htwo

theorem eval_of_isHalf {e : Expr Typed} {n : Numeral} (h : e.numeral? = some n) (hhalf : n.isHalf) :
    M.eval e = M.half := by
  obtain ⟨kind, hkind, text, hnode, hread⟩ := numeral?_eq_some h
  rw [eval_eq, hnode]
  exact hM.literal_half kind hkind text n hread hhalf

theorem denotes_simplifyPower? {note : Typed} {name : String} (hname : name ∈ ["pow", "Pow__"])
    {x exponent r : Expr Typed} (hx : M.Sound x)
    (htype : M.HasType (M.library name [M.eval x, M.eval exponent]) note.type)
    (h : Expr.simplifyPower? note x exponent = some r) :
    M.Denotes r note.type (M.library name [M.eval x, M.eval exponent]) := by
  simp only [Expr.simplifyPower?, Option.bind_eq_bind, Option.bind_eq_some_iff] at h
  obtain ⟨n, hn, h⟩ := h
  split at h
  · next hpromoted =>
    rw [hpromoted] at htype
    split at h
    · next htwo =>
      rw [eval_of_isTwo hM hn htwo] at htype ⊢
      cases h
      refine Denotes.libraryCall ?_ (hpromoted ▸ htype) hx
      exact (hM.pow_two name hname _ _ hx.root htype).symm
    · split at h
      · next hhalf =>
        rw [eval_of_isHalf hM hn hhalf] at htype ⊢
        cases h
        refine Denotes.libraryCall ?_ (hpromoted ▸ htype) hx
        exact (hM.pow_half name hname _ _ hx.root htype).symm
      · cases h
  · cases h

theorem denotes_simplifyLog? {note : Typed} {arg r : Expr Typed} (harg : M.Sound arg)
    (htype : M.HasType (M.library "log" [M.eval arg]) note.type)
    (h : Expr.simplifyLog? note arg = some r) :
    M.Denotes r note.type (M.library "log" [M.eval arg]) := by
  unfold Expr.simplifyLog? at h
  split at h
  · next x hexp =>
    rw [Expr.libraryArgs?_eq_some] at hexp
    have hx : M.Sound x := harg.arg hexp (List.mem_singleton.mpr rfl)
    have heval : M.eval arg = M.library "exp" [M.eval x] := eval_call hexp
    rw [Option.ite_none_right_eq_some] at h
    obtain ⟨hnote, rfl⟩ : _ ∧ x = r := ⟨h.1, Option.some.inj h.2⟩
    rw [heval] at htype ⊢
    refine ⟨?_, hnote, hx⟩
    exact (hM.log_exp _ _ hx.root (hnote ▸ htype)).symm
  · cases h

theorem denotes_simplifyProduct? {note : Typed} {left right r : Expr Typed} (hleft : M.Sound left)
    (hright : M.Sound right)
    (htype : M.HasType (M.library "Times__" [M.eval left, M.eval right]) note.type)
    (h : Expr.simplifyProduct? note left right = some r) :
    M.Denotes r note.type (M.library "Times__" [M.eval left, M.eval right]) := by
  unfold Expr.simplifyProduct? at h
  split at h
  · next hany =>
    rw [eval_of_transposed? hany] at htype ⊢
    split at h
    · next hvector =>
      cases h
      exact Denotes.libraryCall (hM.vector_product _ (hright.hasType hvector)).symm htype hright
    · next hmatrix =>
      cases h
      exact Denotes.libraryCall (hM.crossprod _ (hright.hasType hmatrix)).symm htype hright
    · cases h
  · split at h
    · next hany =>
      rw [eval_of_transposed? hany] at htype ⊢
      split at h
      · next hrow =>
        cases h
        exact Denotes.libraryCall (hM.rowVector_product _ (hleft.hasType hrow)).symm htype hleft
      · next hmatrix =>
        cases h
        exact Denotes.libraryCall (hM.tcrossprod _ (hleft.hasType hmatrix)).symm htype hleft
      · cases h
    · cases h

/-- Every identity gives an expression of the value and the type of the call. -/
theorem denotes_simplify? {note : Typed} {name : String} {args : List (Expr Typed)} {r : Expr Typed}
    (hargs : ∀ a ∈ args, M.Sound a)
    (htype : M.HasType (M.library name (args.map M.eval)) note.type)
    (h : Expr.simplify? note name args = some r) :
    M.Denotes r note.type (M.library name (args.map M.eval)) := by
  unfold Expr.simplify? at h
  split at h
  · next x exponent => exact denotes_simplifyPower? hM (by decide) (hargs x (by simp)) htype h
  · next x exponent => exact denotes_simplifyPower? hM (by decide) (hargs x (by simp)) htype h
  · next arg => exact denotes_simplifyLog? hM (hargs arg (by simp)) htype h
  · next left right =>
    exact denotes_simplifyProduct? hM (hargs left (by simp)) (hargs right (by simp)) htype h
  · next a b =>
    obtain ⟨hguard, h⟩ := Option.ite_none_right_eq_some.mp h
    obtain ⟨hsame, htyped⟩ := Bool.and_eq_true_iff.mp hguard
    have ha := hargs a (by simp)
    cases h
    exact Denotes.selfProduct hsame (hM.dot_product _ _ htyped ha.root) htype ha
  · next a b =>
    obtain ⟨hsame, h⟩ := Option.ite_none_right_eq_some.mp h
    cases h
    exact Denotes.selfProduct hsame (hM.columns_dot_product _) htype (hargs a (by simp))
  · next a b =>
    obtain ⟨hsame, h⟩ := Option.ite_none_right_eq_some.mp h
    cases h
    exact Denotes.selfProduct hsame (hM.rows_dot_product _) htype (hargs a (by simp))
  · cases h

/-! ## Fusion -/

/-- A mass function of a family, over the link of a linear predictor. -/
theorem density_linear {f : LinkedFamily} (hf : f ∈ LinkedFamily.all) {s : DensitySuffix}
    (hs : s ∈ massSuffixes) {p : LinearPredictor} {predictor : Expr Typed} (hp : p.Shape predictor)
    (hsound : M.Sound predictor) (outcome : V) (rest : List V) :
    M.density (f.family ++ s.text) (outcome :: M.library f.link [M.eval predictor] :: rest) =
      M.density (f.linked ++ "_glm" ++ s.text)
        (outcome :: M.eval p.design :: M.eval p.intercept :: M.eval p.coefficients :: rest) := by
  cases hp with
  | right product sum factors =>
    have hproduct : M.Sound product := hsound.arg sum (by simp)
    have heval : M.eval predictor = M.library "Plus__" [M.eval p.intercept, M.eval product] :=
      eval_call sum
    rw [heval, eval_product factors]
    exact hM.intercept_left f hf s hs outcome _ _ _ rest (hproduct.design factors)
  | left product sum factors =>
    have hproduct : M.Sound product := hsound.arg sum (by simp)
    have heval : M.eval predictor = M.library "Plus__" [M.eval product, M.eval p.intercept] :=
      eval_call sum
    rw [heval, eval_product factors]
    exact hM.intercept_right f hf s hs outcome _ _ _ rest (hproduct.design factors)
  | alone intercept factors =>
    have hzero : M.eval p.intercept = M.literal .int "0" := by
      rw [intercept, eval_eq]
      rfl
    rw [eval_product factors, hzero]
    exact hM.no_intercept f hf s hs outcome _ _ rest (hsound.design factors)

/-- A fused call has the value of the call that it takes the place of. -/
theorem density_fuse? {family : String} {s : DensitySuffix} (hs : s ∈ massSuffixes)
    {args : List (Expr Typed)} {fusion : Fusion} (hargs : ∀ a ∈ args, M.Sound a)
    (h : fuse? family s.text args = some fusion) :
    M.density fusion.name (fusion.args.map M.eval) =
      M.density (family ++ s.text) (args.map M.eval) := by
  obtain ⟨f, hf, rfl, outcome, parameter, predictor, rest, rfl, hlink, hfused⟩ := fuse?_eq_some h
  have hparameter : M.Sound parameter := hargs parameter (by simp)
  have heval : M.eval parameter = M.library f.link [M.eval predictor] := eval_call hlink
  simp only [List.map_cons, heval]
  obtain ⟨p, hshape, hname, hfusedArgs⟩ | ⟨hname, hfusedArgs⟩ := hfused
  · rw [hname, hfusedArgs]
    exact (density_linear hM hf hs hshape (hparameter.arg hlink (by simp)) _ _).symm
  · rw [hname, hfusedArgs]
    exact (hM.link f hf s hs _ _ _).symm

/-! ## Calls -/

/-- A call of a current function is built to its value, if it is of the kind that its name asks
for. -/
theorem denotes_applyModern {note : Typed} {kind : CallKind} {name : String}
    {args : List (Expr Typed)} (hkind : kind.retag name = kind) (hargs : ∀ a ∈ args, M.Sound a)
    (htype : M.HasType (M.call kind name (args.map M.eval)) note.type) :
    M.Denotes (Expr.applyModern note kind name args).value note.type
      (M.call kind name (args.map M.eval)) := by
  unfold Expr.applyModern
  split
  · next fusion hfusion =>
    obtain ⟨hlibrary, hfusion⟩ := Option.ite_none_right_eq_some.mp hfusion
    -- only densities are fused, so nothing looks into the result again
    have hdensity : kind = .conditional .library := by
      rw [← hkind]
      exact CallKind.retag_of_isSome (densitySuffix?_of_fuseCall? hfusion) hlibrary
    subst hdensity
    obtain ⟨family, s, hs, rfl, hfuse⟩ := fuseCall?_eq_some hfusion
    refine Denotes.ofNode (density_fuse? hM hs hargs hfuse) htype ?_
    intro c hc
    cases hc
  · split
    · next r hr =>
      obtain ⟨rfl, hr⟩ := Option.ite_none_right_eq_some.mp hr
      exact denotes_simplify? hM hargs htype hr
    · refine Denotes.ofNode rfl htype ?_
      intro c hc
      exact hargs c (Node.children_of_exposed hc)

omit hM in
/-- The kinds that a read of the log density may have. -/
theorem kind_of_get_lp {kind : CallKind} (hkind : kind.retag "get_lp" = kind)
    (huser : kind ≠ .user) : kind ∈ [CallKind.library, .internal] := by
  have hplain : densitySuffix? "get_lp" = none := by decide
  cases kind with
  | library => decide
  | internal => decide
  | user => exact absurd rfl huser
  | conditional origin =>
    rw [CallKind.retag, hplain] at hkind
    cases origin <;> cases hkind

/-- A call is built to its value. -/
theorem denotes_apply {note : Typed} {kind : CallKind} {name : String} {args : List (Expr Typed)}
    (hkind : kind.retag name = kind) (hargs : ∀ a ∈ args, M.Sound a)
    (htype : M.HasType (M.call kind name (args.map M.eval)) note.type) :
    M.Denotes (Expr.apply note kind name args).value note.type
      (M.call kind name (args.map M.eval)) := by
  have hmodern := Expr.value_modernCall Catalog.builtin kind name args
  rw [Expr.apply, Traced.value_bind, DeprecationTable.builtin, hmodern]
  obtain ⟨rfl, rfl, huser, hhead⟩ | ⟨test, yes, no, rfl, hlibrary, rfl, hhead⟩ | ⟨-, -, hhead⟩ :=
    Node.modernHead_call (.ofCatalog Catalog.builtin) kind name args
  · rw [hhead]
    have htarget : M.call kind "get_lp" [] = M.call .internal "target" [] :=
      hM.target kind (kind_of_get_lp hkind huser)
    rw [List.map_nil, htarget] at htype ⊢
    exact denotes_applyModern hM rfl hargs htype
  · rw [hhead]
    have hplain : kind = .library := by
      rw [← hkind]
      exact CallKind.retag_of_eq_none (by decide) hlibrary
    subst hplain
    refine Denotes.ofNode ?_ htype ?_
    · exact (congrArg (M.conditional · _ _) (eval_paren _ test)).trans (hM.choice _ _ _).symm
    · intro c hc
      obtain rfl | rfl | rfl : c = ⟨test.note, .paren test⟩ ∨ c = yes ∨ c = no := by
        simpa [Node.exposed, Node.children, Expr.groupTest] using hc
      · exact (hargs test (by simp)).paren
      · exact hargs c (by simp)
      · exact hargs c (by simp)
  · rw [hhead]
    cases hrename : (DeprecationTable.ofCatalog Catalog.builtin).rename? kind name with
    | none =>
      rw [DeprecationTable.renamed, hrename]
      exact denotes_applyModern hM hkind hargs htype
    | some renamed =>
      obtain ⟨newKind, newName⟩ := renamed
      have hnames : ∀ f ∈ Catalog.builtin, f.name ≠ "" := by decide
      obtain ⟨rfl, hnew⟩ := DeprecationTable.retag_of_rename? hnames hkind hrename
      have hvalue : M.call .library name (args.map M.eval) =
          M.call newKind newName (args.map M.eval) := hM.renamed _ _ _ _ hrename
      rw [DeprecationTable.renamed, hrename]
      rw [hvalue] at htype ⊢
      exact denotes_applyModern hM hnew hargs htype

/-! ## Whole expressions -/

/-- One step of building: a node over sound children, as it was before the step. -/
theorem denotes_build {note : Typed} {node : Node (Expr Typed)} (htag : node.retag = node)
    (hinner : ∀ c ∈ node.children, M.Sound c)
    (htype : M.HasType (M.node (node.map M.eval)) note.type) :
    M.Denotes (Expr.build note node).value note.type (M.node (node.map M.eval)) := by
  cases node with
  | call kind name args =>
    have hkind : kind.retag name = kind := by
      injection htag
    exact denotes_apply hM hkind hinner htype
  | _ => exact Denotes.ofNode rfl htype hinner

/-- Building a repaired and well-typed tree keeps the value and the type of its root. -/
theorem denotes_rebuild {e : Expr Typed} (htags : e.repair.value = e) (htypes : M.WellTyped e) :
    M.Denotes e.rebuild.value e.note.type (M.eval e) := by
  induction e using Expr.induct with
  | step e ih =>
    obtain ⟨hroot, hchildren⟩ := Expr.repaired_iff.mp htags
    have hbuilt (c) (hc : c ∈ e.node.children) : M.Denotes c.rebuild.value c.note.type (M.eval c) :=
      ih c hc (hchildren c hc) (htypes.child hc)
    have hvalue : (e.node.map fun c => c.rebuild.value).map M.eval = e.node.map M.eval := by
      rw [Node.map_map]
      exact Node.map_congr fun c hc => (hbuilt c hc).eval_eq
    rw [Expr.value_rebuild, M.eval_eq e, ← hvalue]
    refine denotes_build hM ?_ ?_ ?_
    · rw [Node.retag_map, hroot]
    · intro c hc
      rw [Node.children_map] at hc
      obtain ⟨child, hchild, rfl⟩ := List.mem_map.mp hc
      exact (hbuilt child hchild).sound
    · rw [hvalue, ← M.eval_eq]
      exact htypes.root

end Identities

/-- In every interpretation that is lawful, building a repaired tree anew keeps its value and its
type, if the tree is well typed. -/
theorem eval_rebuild (M : Interpretation V) (hM : M.Lawful) (e : Expr Typed)
    (htags : e.repair.value = e) (htypes : M.WellTyped e) :
    M.eval e.rebuild.value = M.eval e ∧ e.rebuild.value.note.type = e.note.type := by
  have h := denotes_rebuild hM htags htypes
  exact ⟨h.eval_eq, h.type_eq⟩

/-- A deprecated mass function over the link of a linear predictor. Only under its new name is it
one that can be fused. -/
def linkedRegression : Expr Typed :=
  let leaf (type : ValueType) (name : String) : Expr Typed := ⟨⟨type, .dataOnly, .dummy⟩, .var name⟩
  let library (type : ValueType) (name : String) (args : List (Expr Typed)) : Expr Typed :=
    ⟨⟨type, .autodiff, .dummy⟩, .call .library name args⟩
  library .real "poisson_log"
    [leaf (.array .int) "y",
      library .vector "exp"
        [library .vector "Plus__"
          [leaf .real "alpha", library .vector "Times__" [leaf .matrix "x", leaf .vector "beta"]]]]

def regressionType : String → ValueType
  | "y"    => .array .int
  | "x"    => .matrix
  | "beta" => .vector
  | _      => .real

/-- With these types every outline is of the annotated type. If all variables were reals, that of the
outcome would not be. -/
theorem eval_rebuild_linkedRegression :
    (outline regressionType).Lawful ∧ linkedRegression.repair.value = linkedRegression ∧
      (outline regressionType).WellTyped linkedRegression ∧
      ¬ (outline fun _ => .real).WellTyped linkedRegression ∧
      (outline regressionType).eval linkedRegression.rebuild.value =
        (outline regressionType).eval linkedRegression ∧
      linkedRegression.rebuild.value.note.type = linkedRegression.note.type := by
  have htags : linkedRegression.repair.value = linkedRegression := by
    have hplain : ∀ name ∈ ["poisson_log", "exp", "Plus__", "Times__"],
        CallKind.library.retag name = .library := by
      decide
    have hstep (note : Typed) (node : Node (Expr Typed)) :=
      Expr.repaired_iff (e := ⟨note, node⟩)
    simp [linkedRegression, hstep, Node.retag, Node.children, hplain]
  have hstep (note : Typed) (node : Node (Expr Typed)) :=
    wellTyped_iff (M := outline regressionType) (e := ⟨note, node⟩)
  have heval (note : Typed) (node : Node (Expr Typed)) :=
    (outline regressionType).eval_eq ⟨note, node⟩
  have htypes : (outline regressionType).WellTyped linkedRegression := by
    simp only [linkedRegression, hstep, heval, Node.children, Node.map, node, List.forall_mem_cons,
      List.map_cons, List.map_nil, List.not_mem_nil, false_implies, implies_true, and_true]
    exact ⟨rfl, rfl, rfl, rfl, rfl, rfl, rfl, rfl⟩
  have hreals : ¬ (outline fun _ => .real).WellTyped linkedRegression := by
    intro h
    have houtcome := (h.child List.mem_cons_self).root
    rw [eval_eq] at houtcome
    -- the outcome is an array
    cases houtcome
  exact ⟨lawful_outline _, htags, htypes, hreals,
    eval_rebuild _ (lawful_outline _) linkedRegression htags htypes⟩

end Interpretation

end ModelForm
