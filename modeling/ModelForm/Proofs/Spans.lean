import ModelForm.Proofs.Building
import ModelForm.Proofs.Hashing
import ModelForm.Proofs.Naturality

/-!
# Places in a source do not matter

Equality of checked trees leaves out where they stand in a source. This file shows that no rewrite
depends on it: what is made of equal trees is equal.

That is a statement about two runs. It follows from one about a single run: a rewrite commutes with
*moving* a tree, which is replacing its spans by a function of them (`Expr.relocate`). Equal trees
become the same tree once all spans are moved to one place (`Span.forget`), so both runs go through
the same tree (`EqualBy.congr`).

* Repairing, modernizing and normalizing groups commute with every replacement of annotations.
* Building looks at types and at equality of trees, and an intercept that was not written gets the
  span of its predictor. Both survive moving, so building commutes with it too
  (`Expr.rebuild_relocate`).
* `EqualBy.stmt` and `EqualBy.program` carry equality by a part over to programs.
-/

namespace ModelForm

/-! ## Moving trees -/

/-- Every place becomes the one that stands for none. -/
def Span.forget (_ : Span) : Span := .dummy

/-- The annotation of the same value in another place. -/
def Typed.relocate (move : Span → Span) (t : Typed) : Typed := { t with span := move t.span }

/-- Annotations are equal exactly if they are the same once their places are forgotten. -/
theorem Typed.equalBy_forget : EqualBy (Typed.relocate Span.forget) := by
  rintro ⟨type, level, span⟩ ⟨type', level', span'⟩
  rw [equalBy_typed]
  simp [meaning, relocate, Span.forget]

namespace Expr

variable (move : Span → Span)

def relocate (move : Span → Span) : Expr Typed → Expr Typed := mapNotes (Typed.relocate move)

theorem relocate_mk (note : Typed) (node : Node (Expr Typed)) :
    relocate move ⟨note, node⟩ = ⟨note.relocate move, node.map (relocate move)⟩ :=
  mapNotes_mk _ note node

@[simp] theorem type_relocate (e : Expr Typed) : (e.relocate move).note.type = e.note.type := by
  rw [relocate, note_mapNotes]
  rfl

theorem equalBy_forget : EqualBy (relocate Span.forget) := Typed.equalBy_forget.mapNotes

/-- Whether two trees are equal does not change when they are moved. -/
@[simp] theorem beq_relocate (a b : Expr Typed) :
    (a.relocate move == b.relocate move) = (a == b) := by
  have hmeaning : ∀ e : Expr Typed, (e.relocate move).mapNotes Typed.meaning =
      e.mapNotes Typed.meaning := fun e => mapNotes_mapNotes _ _ e
  rw [Bool.eq_iff_iff, equalBy_typed.mapNotes, equalBy_typed.mapNotes, hmeaning, hmeaning]

/-! ## What a call is looked at for -/

section Parts

variable {α β : Type} (f : α → β)

theorem libraryArgs?_mapNotes (name : String) (e : Expr α) :
    (e.mapNotes f).libraryArgs? name = (e.libraryArgs? name).map (List.map (mapNotes f)) := by
  obtain ⟨note, node⟩ := e
  rw [mapNotes_mk]
  cases node with
  | call kind callee args =>
    cases kind with
    | library =>
      simp only [libraryArgs?, Node.map]
      split <;> rfl
    | _ => rfl
  | _ => rfl

theorem operands?_mapNotes (op : Operator) (e : Expr α) :
    (e.mapNotes f).operands? op =
      (e.operands? op).map fun operands => (operands.1.mapNotes f, operands.2.mapNotes f) := by
  unfold operands?
  rw [libraryArgs?_mapNotes]
  rcases e.libraryArgs? op.name with _ | _ | ⟨left, _ | ⟨right, _ | ⟨more, rest⟩⟩⟩ <;> rfl

end Parts

theorem libraryArgs?_relocate (name : String) (e : Expr Typed) :
    (e.relocate move).libraryArgs? name =
      (e.libraryArgs? name).map (List.map (relocate move)) :=
  libraryArgs?_mapNotes _ name e

theorem numeral?_relocate (e : Expr Typed) : (e.relocate move).numeral? = e.numeral? := by
  obtain ⟨note, node⟩ := e
  rw [relocate_mk]
  cases node with
  | literal kind text => cases kind <;> rfl
  | _ => rfl

theorem transposed?_relocate (e : Expr Typed) :
    (e.relocate move).transposed? = e.transposed?.map (relocate move) := by
  unfold transposed?
  rw [libraryArgs?_relocate]
  rcases e.libraryArgs? Operator.transpose.name with _ | _ | ⟨a, _ | ⟨more, rest⟩⟩ <;> rfl

/-! ## Identities -/

theorem libraryCall_relocate (note : Typed) (name : String) (arg : Expr Typed) :
    (libraryCall note name arg).relocate move =
      libraryCall (note.relocate move) name (arg.relocate move) :=
  relocate_mk move note _

theorem simplifyPower?_relocate (note : Typed) (x exponent : Expr Typed) :
    simplifyPower? (note.relocate move) (x.relocate move) (exponent.relocate move) =
      (simplifyPower? note x exponent).map (relocate move) := by
  unfold simplifyPower?
  rw [numeral?_relocate, type_relocate]
  cases exponent.numeral? with
  | none => rfl
  | some n =>
    show (if note.type = _ then _ else none) = Option.map _ (if note.type = _ then _ else none)
    split
    · split
      · rw [Option.map_some, libraryCall_relocate]
      · split
        · rw [Option.map_some, libraryCall_relocate]
        · rfl
    · rfl

theorem simplifyLog?_relocate (note : Typed) (arg : Expr Typed) :
    simplifyLog? (note.relocate move) (arg.relocate move) =
      (simplifyLog? note arg).map (relocate move) := by
  unfold simplifyLog?
  rw [libraryArgs?_relocate]
  rcases arg.libraryArgs? "exp" with _ | _ | ⟨x, _ | ⟨more, rest⟩⟩
  case some.cons.nil =>
    show (if (x.relocate move).note.type = note.type then some (x.relocate move) else none) =
      (if x.note.type = note.type then some x else none).map (relocate move)
    rw [type_relocate]
    split <;> rfl
  all_goals rfl

theorem simplifyProduct?_relocate (note : Typed) (left right : Expr Typed) :
    simplifyProduct? (note.relocate move) (left.relocate move) (right.relocate move) =
      (simplifyProduct? note left right).map (relocate move) := by
  have htransposed : ∀ a b : Expr Typed, (a.relocate move).transposed?.any (· == b.relocate move) =
      a.transposed?.any (· == b) := by
    intro a b
    rw [transposed?_relocate, Option.any_map]
    simp only [beq_relocate]
  unfold simplifyProduct?
  rw [htransposed, htransposed, type_relocate, type_relocate]
  split
  · cases right.note.type <;> simp [libraryCall_relocate]
  · split
    · cases left.note.type <;> simp [libraryCall_relocate]
    · rfl

theorem selfProduct_relocate {guard : Prop} [Decidable guard] (note : Typed) (name : String)
    (a : Expr Typed) :
    (if guard then some (libraryCall (note.relocate move) name (a.relocate move)) else none) =
      (if guard then some (libraryCall note name a) else none).map (relocate move) := by
  split
  · rw [Option.map_some, libraryCall_relocate]
  · rfl

theorem simplify?_relocate (note : Typed) (name : String) (args : List (Expr Typed)) :
    simplify? (note.relocate move) name (args.map (relocate move)) =
      (simplify? note name args).map (relocate move) := by
  -- under any other name nothing applies on either side; under these the arguments decide
  by_cases hname : name ∈ identityNames
  · simp only [identityNames, List.mem_cons, List.not_mem_nil, or_false] at hname
    rcases args with _ | ⟨a, _ | ⟨b, _ | ⟨c, rest⟩⟩⟩
    · rcases hname with rfl | rfl | rfl | rfl | rfl | rfl | rfl <;> rfl
    · rcases hname with rfl | rfl | rfl | rfl | rfl | rfl | rfl
      case inr.inr.inl => exact simplifyLog?_relocate move note a
      all_goals rfl
    · rcases hname with rfl | rfl | rfl | rfl | rfl | rfl | rfl
      · exact simplifyPower?_relocate move note a b
      · exact simplifyPower?_relocate move note a b
      · rfl
      · exact simplifyProduct?_relocate move note a b
      all_goals
        simp only [List.map_cons, List.map_nil, simplify?, beq_relocate, type_relocate]
        exact selfProduct_relocate move note _ a
    · rcases hname with rfl | rfl | rfl | rfl | rfl | rfl | rfl <;> rfl
  · rw [simplify?_eq_none hname, simplify?_eq_none hname]
    rfl

end Expr

/-! ## Regressions -/

namespace LinearPredictor

variable (move : Span → Span)

def relocate (move : Span → Span) (p : LinearPredictor) : LinearPredictor :=
  ⟨p.design.relocate move, p.intercept.relocate move, p.coefficients.relocate move⟩

theorem product?_relocate (e : Expr Typed) :
    product? (e.relocate move) =
      (product? e).map fun factors => (factors.1.relocate move, factors.2.relocate move) := by
  unfold product?
  rw [Expr.relocate, Expr.operands?_mapNotes]
  rcases e.operands? .times with _ | ⟨design, coefficients⟩
  · rfl
  · show Option.filter _ (some (design.relocate move, coefficients.relocate move)) = _
    rw [Option.filter_some, Option.filter_some, Expr.type_relocate]
    split <;> rfl

/-- The intercept that was not written moves with the predictor. -/
theorem zeroIntercept_relocate (e : Expr Typed) :
    zeroIntercept (e.relocate move) = (zeroIntercept e).relocate move := by
  rw [zeroIntercept, zeroIntercept, Expr.relocate_mk, Expr.relocate, Expr.note_mapNotes]
  rfl

theorem ofExpr?_relocate (e : Expr Typed) :
    ofExpr? (e.relocate move) = (ofExpr? e).map (relocate move) := by
  have hsum : (e.relocate move).operands? .plus = (e.operands? .plus).map fun operands =>
      (operands.1.relocate move, operands.2.relocate move) := Expr.operands?_mapNotes _ .plus e
  unfold ofExpr?
  rw [hsum]
  rcases e.operands? .plus with _ | ⟨left, right⟩
  · simp only [Option.map_none, product?_relocate, zeroIntercept_relocate, Option.map_map]
    rfl
  · simp only [Option.map_some, product?_relocate]
    rcases product? right with _ | ⟨design, coefficients⟩
    · simp only [Option.map_none, Option.map_map]
      rfl
    · rfl

end LinearPredictor

def Fusion.relocate (move : Span → Span) (f : Fusion) : Fusion :=
  { f with args := f.args.map (Expr.relocate move) }

section Fusion

variable (move : Span → Span)

theorem fuse?_relocate (family suffix : String) (args : List (Expr Typed)) :
    fuse? family suffix (args.map (Expr.relocate move)) =
      (fuse? family suffix args).map (Fusion.relocate move) := by
  unfold fuse?
  rcases LinkedFamily.find? family with _ | f
  · rfl
  · rcases args with _ | ⟨outcome, _ | ⟨parameter, rest⟩⟩
    · rfl
    · rfl
    · simp only [List.map_cons, Option.bind_eq_bind, Option.bind_some, Expr.libraryArgs?_relocate]
      rcases parameter.libraryArgs? f.link with _ | _ | ⟨predictor, _ | ⟨more, others⟩⟩
      case some.cons.nil =>
        simp only [Option.map_some, List.map_cons, List.map_nil,
          LinearPredictor.ofExpr?_relocate]
        cases LinearPredictor.ofExpr? predictor <;> rfl
      all_goals rfl

theorem fuseCall?_relocate (name : String) (args : List (Expr Typed)) :
    fuseCall? name (args.map (Expr.relocate move)) =
      (fuseCall? name args).map (Fusion.relocate move) := by
  unfold fuseCall?
  rcases splitMass? name with _ | ⟨family, s⟩
  · rfl
  · exact fuse?_relocate move family s.text args

end Fusion

/-! ## Building -/

namespace Expr

variable (move : Span → Span)

theorem applyModern_relocate (note : Typed) (kind : CallKind) (name : String)
    (args : List (Expr Typed)) :
    (applyModern (note.relocate move) kind name (args.map (relocate move))).value =
      (applyModern note kind name args).value.relocate move := by
  have hfuse : (if kind.isLibrary then fuseCall? name (args.map (relocate move)) else none) =
      (if kind.isLibrary then fuseCall? name args else none).map (Fusion.relocate move) := by
    split
    · exact fuseCall?_relocate move name args
    · rfl
  have hsimplify : (if kind = .library then
        simplify? (note.relocate move) name (args.map (relocate move)) else none) =
      (if kind = .library then simplify? note name args else none).map (relocate move) := by
    split
    · exact simplify?_relocate move note name args
    · rfl
  unfold applyModern
  rw [hfuse, hsimplify]
  rcases (if kind.isLibrary then fuseCall? name args else none) with _ | fusion
  · rcases (if kind = .library then simplify? note name args else none) with _ | r
    · exact (relocate_mk move note (.call kind name args)).symm
    · rfl
  · exact (relocate_mk move note (.call kind fusion.name fusion.args)).symm

theorem apply_relocate (note : Typed) (kind : CallKind) (name : String) (args : List (Expr Typed)) :
    (apply (note.relocate move) kind name (args.map (relocate move))).value =
      (apply note kind name args).value.relocate move := by
  unfold apply
  rw [Traced.value_bind, Traced.value_bind, relocate, modernCall_mapNotes]
  cases (modernCall .builtin kind name args).value with
  | call newKind newName newArgs => exact applyModern_relocate move note newKind newName newArgs
  | _ => exact (relocate_mk move note _).symm

theorem build_relocate (note : Typed) (node : Node (Expr Typed)) :
    (build note node).value.relocate move =
      (build (note.relocate move) (node.map (relocate move))).value := by
  cases node with
  | call kind name args => exact (apply_relocate move note kind name args).symm
  | _ => exact relocate_mk move note _

theorem rebuild_relocate (e : Expr Typed) :
    (e.relocate move).rebuild.value = e.rebuild.value.relocate move := by
  simp only [rebuild, value_foldTraced]
  exact fold_mapNotes (build_relocate move) e

end Expr

/-! ## Two runs -/

theorem EqualBy.program {ε φ : Type} [BEq ε] {f : ε → φ} (h : EqualBy f) :
    EqualBy (Program.map f) := by
  intro p q
  show p.statements == q.statements ↔ _
  rw [h.stmt.list, Program.map, Program.map, Program.mk.injEq]

/-- Both fusions lead to the same name and to equal arguments. -/
def Fusion.Same (f g : Fusion) : Prop := f.name = g.name ∧ f.args == g.args

/-- What commutes with moving its arguments, and finds a fusion or none, finds the same for equal
arguments. -/
theorem Fusion.rel_same {find? : List (Expr Typed) → Option Fusion}
    (h : ∀ args, find? (args.map (Expr.relocate .forget)) = (find? args).map (relocate .forget))
    {as bs : List (Expr Typed)} (hargs : as == bs) :
    Option.Rel Fusion.Same (find? as) (find? bs) := by
  have hfound : (find? as).map (relocate .forget) = (find? bs).map (relocate .forget) := by
    rw [← h, ← h, (Expr.equalBy_forget.list as bs).mp hargs]
  cases ha : find? as with
  | none =>
    rw [ha, Option.map_none, eq_comm, Option.map_eq_none_iff] at hfound
    rw [hfound]
    exact .none
  | some f =>
    rw [ha, Option.map_some, eq_comm, Option.map_eq_some_iff] at hfound
    obtain ⟨g, hb, hsame⟩ := hfound
    rw [hb]
    simp only [relocate, Fusion.mk.injEq] at hsame
    obtain ⟨-, hname, hargs⟩ := hsame
    exact .some ⟨hname.symm, (Expr.equalBy_forget.list _ _).mpr hargs.symm⟩

/-- Whatever a rewrite is given, the places that the annotations name have no part in what it makes
of it: equal trees, argument lists and programs are rewritten to equal ones. -/
theorem rewrites_ignore_spans :
    (∀ a b : Expr Typed, a == b →
      a.repair.value == b.repair.value ∧
        (∀ table, (a.modernize table).value == (b.modernize table).value) ∧
        a.normalizeGroups == b.normalizeGroups ∧ a.rebuild.value == b.rebuild.value) ∧
      (∀ as bs : List (Expr Typed), as == bs → ∀ name,
        Option.Rel Fusion.Same (fuseCall? name as) (fuseCall? name bs) ∧
          Option.Rel Fusion.Same (fuseSampling? name as) (fuseSampling? name bs)) ∧
      ∀ p q : Program (Expr Typed), p == q → ∀ families,
        (p.canonicalize families).value == (q.canonicalize families).value := by
  have hexpr := Expr.equalBy_forget
  -- in each part both runs are compared with the run on the tree without places
  refine ⟨fun a b hab => ⟨?_, fun table => ?_, ?_, ?_⟩, fun as bs hargs name => ⟨?_, ?_⟩,
    fun p q hpq families => ?_⟩
  · exact hexpr.congr hexpr (fun e => e.repair.value) (Expr.repair_mapNotes _) hab
  · exact hexpr.congr hexpr (fun e => (e.modernize table).value)
      (Expr.modernize_mapNotes _ table) hab
  · exact hexpr.congr hexpr Expr.normalizeGroups (Expr.normalizeGroups_mapNotes _) hab
  · exact hexpr.congr hexpr (fun e => e.rebuild.value) (Expr.rebuild_relocate _) hab
  · exact Fusion.rel_same (fuseCall?_relocate _ name) hargs
  · exact Fusion.rel_same (fuse?_relocate _ name "") hargs
  · exact hexpr.program.congr hexpr.program (fun p => (p.canonicalize families).value)
      (Program.canonicalize_mapNotes families _) hpq

/-- The product of a matrix with its transpose, written at a place. -/
def gramAt (place : Span) : Expr Typed :=
  let note (span : Span) : Typed := ⟨.matrix, .autodiff, span⟩
  let left : Expr Typed := ⟨note ⟨place.start, place.start⟩, .var "x"⟩
  let right : Expr Typed := ⟨note ⟨place.stop, place.stop⟩, .var "x"⟩
  ⟨note place, .call .library "Times__"
    [⟨note place, .call .library "Transpose__" [left]⟩, right]⟩

/-- The product as an outcome and, under a link, as the parameter of its distribution. -/
def linkedAt (place : Span) : List (Expr Typed) :=
  [gramAt place, ⟨⟨.matrix, .autodiff, place⟩, .call .library "exp" [gramAt place]⟩]

/-- The product assigned by an arrow. -/
def arrowAt (place : Span) : Program (Expr Typed) :=
  ⟨[.assign (gramAt place) .arrow (gramAt place)]⟩

theorem rewrites_ignore_spans_gramAt :
    gramAt ⟨0, 6⟩ ≠ gramAt ⟨10, 16⟩ ∧
      (gramAt ⟨0, 6⟩ == gramAt ⟨10, 16⟩ ∧
        (gramAt ⟨0, 6⟩).rebuild.value == (gramAt ⟨10, 16⟩).rebuild.value) ∧
      (linkedAt ⟨0, 6⟩ == linkedAt ⟨10, 16⟩ ∧
        Option.Rel Fusion.Same (fuseSampling? "poisson" (linkedAt ⟨0, 6⟩))
          (fuseSampling? "poisson" (linkedAt ⟨10, 16⟩))) ∧
      arrowAt ⟨0, 6⟩ == arrowAt ⟨10, 16⟩ ∧
        ((arrowAt ⟨0, 6⟩).canonicalize .builtin).value ==
          ((arrowAt ⟨10, 16⟩).canonicalize .builtin).value := by
  have hexpr : gramAt ⟨0, 6⟩ == gramAt ⟨10, 16⟩ := by decide +kernel
  have hargs : linkedAt ⟨0, 6⟩ == linkedAt ⟨10, 16⟩ := by decide +kernel
  have hprogram : arrowAt ⟨0, 6⟩ == arrowAt ⟨10, 16⟩ := by decide +kernel
  refine ⟨fun h => ?_, ⟨hexpr, (rewrites_ignore_spans.1 _ _ hexpr).2.2.2⟩,
    ⟨hargs, (rewrites_ignore_spans.2.1 _ _ hargs "poisson").2⟩, hprogram,
    rewrites_ignore_spans.2.2 _ _ hprogram .builtin⟩
  exact absurd (congrArg (fun e => e.note.span) h) (by decide)

end ModelForm
