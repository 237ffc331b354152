import ModelForm.Proofs.Hashing
import ModelForm.Proofs.Naturality
import ModelForm.Proofs.Tagged

/-!
# Repair is retagging

Repair gives calls other kinds and does nothing else. `Expr.RetagOf` says what a retagged tree is
without mentioning the pass: it has the places of the tree before, and at each place the same
annotation and the same head, but for the kind of a call, of which the origin and the name decide.

* `CallKind.retagOf_iff`, `Node.retagOf_iff` — there is one way to retag a call, and one to retag a
  head.
* `Expr.descend?_repair` — repair works at every place on its own.
* `Expr.repair_retags` — a tree has one retagged tree, and repair finds it. It follows that a second
  repair changes nothing and that repair does not care about annotations.
-/

namespace ModelForm

/-! ## Kinds -/

namespace CallKind

/-- The kind `new` is what the name of a call makes of its kind `old`. -/
structure RetagOf (name : String) (old new : CallKind) : Prop where
  /-- The provider stays the same. -/
  origin_eq : new.origin? = old.origin?
  /-- What only the compiler provides is not touched. -/
  internal : old = .internal → new = .internal
  /-- What somebody provides is applied conditionally exactly if it is a density by its name. -/
  conditional_iff : ∀ origin, old.origin? = some origin →
    (new = .conditional origin ↔ NamesDensity name)
  /-- Otherwise it is applied plainly. -/
  plain : ∀ origin, old.origin? = some origin → ¬ NamesDensity name → new = .plain origin

@[simp] theorem origin?_retag (kind : CallKind) (name : String) :
    (kind.retag name).origin? = kind.origin? := by
  unfold retag
  split
  · rfl
  · next origin h =>
    rw [h]
    split
    · rfl
    · cases origin <;> rfl

theorem eq_internal_of_origin? {kind : CallKind} (h : kind.origin? = none) : kind = .internal := by
  cases kind with
  | internal => rfl
  | _ => cases h

theorem retag_of_origin? {kind : CallKind} {origin : Origin} (h : kind.origin? = some origin)
    (name : String) :
    kind.retag name =
      if (densitySuffix? name).isSome then .conditional origin else .plain origin := by
  rw [retag, h]

theorem plain_ne_conditional (origin origin' : Origin) :
    CallKind.plain origin ≠ .conditional origin' := by
  cases origin <;> simp [plain]

theorem retagOf_iff {name : String} {old new : CallKind} :
    RetagOf name old new ↔ new = old.retag name := by
  constructor
  · intro h
    cases horigin : old.origin? with
    | none =>
      have hold := eq_internal_of_origin? horigin
      rw [hold, h.internal hold]
      rfl
    | some origin =>
      rw [retag_of_origin? horigin]
      split
      · next hsome =>
        exact (h.conditional_iff origin horigin).mpr (isSome_densitySuffix?_iff.mp hsome)
      · next hnone =>
        rw [isSome_densitySuffix?_iff] at hnone
        exact h.plain origin horigin hnone
  · rintro rfl
    refine ⟨origin?_retag old name, ?_, ?_, ?_⟩
    · rintro rfl
      rfl
    · intro origin horigin
      rw [retag_of_origin? horigin, ← isSome_densitySuffix?_iff]
      split
      · next hsome => exact iff_of_true rfl hsome
      · next hnone => exact iff_of_false (plain_ne_conditional origin origin) hnone
    · intro origin horigin hname
      rw [retag_of_origin? horigin, if_neg fun hsome => hname (isSome_densitySuffix?_iff.mp hsome)]

end CallKind

/-! ## Heads -/

namespace Node

/-- The second shell is the first one, but for the kind of a call. -/
inductive RetagOf : Shell → Shell → Prop
  | call (old new : CallKind) (name : String) (places : List Unit)
      (kinds : CallKind.RetagOf name old new) :
      RetagOf (.call old name places) (.call new name places)
  | other (s : Shell) (notCall : s.callee? = none) : RetagOf s s

theorem retagOf_iff {s t : Shell} : RetagOf s t ↔ t = s.retag := by
  constructor
  · intro h
    cases h with
    | call old new name places kinds => rw [retag, ← CallKind.retagOf_iff.mp kinds]
    | other _ notCall => exact (retag_of_not_call notCall).symm
  · rintro rfl
    cases s with
    | call kind name places => exact .call kind _ name places (CallKind.retagOf_iff.mpr rfl)
    | _ => exact .other _ rfl

end Node

/-! ## Trees -/

namespace Expr

variable {α : Type}

/-- The tree `t` has the places of `e`, and at each of them the annotation of `e` and its head with
the kind of a call retagged. -/
def RetagOf (e t : Expr α) : Prop :=
  ∀ path, Option.Rel (fun s r => r.note = s.note ∧ Node.RetagOf s.node.shell r.node.shell)
    (e.descend? path) (t.descend? path)

theorem note_repair (e : Expr α) : e.repair.value.note = e.note := by
  rw [value_repair]

theorem shell_repair (e : Expr α) : e.repair.value.node.shell = e.node.shell.retag := by
  rw [value_repair, Node.shell, ← Node.retag_map, ← Node.shell, Node.shell_map]

theorem children_repair (e : Expr α) :
    e.repair.value.node.children = e.node.children.map fun c => c.repair.value := by
  rw [value_repair, Node.children_retag, Node.children_map]

/-- Below any place, repair does what it does to the tree at that place. -/
theorem descend?_repair (e : Expr α) (path : List Nat) :
    e.repair.value.descend? path = (e.descend? path).map fun s => s.repair.value :=
  descend?_of_children children_repair e path

theorem retagOf_repair (e : Expr α) : e.RetagOf e.repair.value := by
  intro path
  rw [descend?_repair]
  cases e.descend? path with
  | none => exact .none
  | some s => exact .some ⟨note_repair s, Node.retagOf_iff.mpr (shell_repair s)⟩

/-- The places and their heads leave no choice. -/
theorem RetagOf.eq_repair {e t : Expr α} (h : e.RetagOf t) : t = e.repair.value := by
  apply ext_of_descend?
  intro path
  have hpath := h path
  rw [descend?_repair]
  generalize e.descend? path = before at hpath
  generalize t.descend? path = after at hpath
  -- a path ends in both trees or in neither, and where it ends the new head is determined
  cases hpath with
  | none => rfl
  | @some s r heads =>
    obtain ⟨hnote, hshell⟩ := heads
    show some (r.note, r.node.shell) = some (s.repair.value.note, s.repair.value.node.shell)
    rw [note_repair, shell_repair, hnote, Node.retagOf_iff.mp hshell]

/-- Repair retags the calls of a tree and leaves everything else where and as it is. Repairing twice
is repairing once, and it does not matter whether annotations are replaced before or after. -/
theorem repair_retags (e : Expr α) :
    (∀ t : Expr α, t = e.repair.value ↔ e.RetagOf t) ∧
      e.repair.value.repair.value = e.repair.value ∧
      ∀ (β : Type) (f : α → β), (e.mapNotes f).repair.value = e.repair.value.mapNotes f := by
  refine ⟨?_, ?_, ?_⟩
  · intro t
    constructor
    · rintro rfl
      exact retagOf_repair e
    · exact RetagOf.eq_repair
  · exact repaired_iff_tagged.mpr (tagged_repair e)
  · exact fun _ f => repair_mapNotes f e

end Expr

end ModelForm
