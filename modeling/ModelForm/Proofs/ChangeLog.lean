import ModelForm.Proofs.NothingDeprecated
import ModelForm.Proofs.UserCalls

/-!
# What the passes over expressions report

A tree can be held against what a pass has made of it, place by place. What differs is the log that
the pass should have left: `Event.ofRetag?` and `Event.ofReplacement?` say for two heads what is to
be reported of the change from one to the other, without looking at the passes.

* `Expr.places` — the places of a tree in post-order, each of them once.
* `Expr.events_foldTraced_places` — the events of a fold are those of the places, in this order.
* `Expr.ChangeLog` — the events are the differences between two trees, and there are none exactly if
  the trees are the same.
* `Expr.passes_logged` — repair and modernizing leave such logs.
-/

namespace ModelForm

/-! ## Events of traced actions -/

namespace Traced

variable {β γ δ : Type}

@[simp] theorem events_pure (b : β) : (pure b : Traced β).events = [] := rfl

@[simp] theorem events_bind (x : Traced β) (f : β → Traced γ) :
    (x >>= f).events = x.events ++ (f x.value).events := rfl

@[simp] theorem events_map (f : β → γ) (x : Traced β) : (f <$> x).events = x.events :=
  List.append_nil _

@[simp] theorem events_emit (event : Event) : (emit event).events = [event] := rfl

@[simp] theorem events_mapM (f : γ → Traced δ) (cs : List γ) :
    (cs.mapM f).events = cs.flatMap fun c => (f c).events := by
  induction cs with
  | nil => rfl
  | cons c cs ih => simp [ih]

end Traced

/-- The children of a node report from left to right. -/
theorem Node.events_traverse {γ δ : Type} (f : γ → Traced δ) (n : Node γ) :
    (n.traverse f).events = n.children.flatMap fun c => (f c).events := by
  have h := congrArg Traced.events (children_traverse f n)
  rwa [Traced.events_map, Traced.events_mapM] at h

namespace Expr

variable {α R : Type}

/-- The events of a fold are those of the children and then those of the step at the root. -/
theorem events_foldTraced (step : α → Node R → Traced R) (e : Expr α) :
    (e.foldTraced step).events =
      (e.node.children.flatMap fun c => (c.foldTraced step).events) ++
        (step e.note (e.node.map fun c => (c.foldTraced step).value)).events := by
  rw [foldTraced_eq, Traced.events_bind, Node.events_traverse, Node.value_traverse]

/-! ## Places -/

/-- The places of a tree in post-order: those in the children from left to right, then the root. -/
def places : Expr α → List (List Nat) :=
  para fun _ below => (below.children.zipIdx.flatMap fun (paths, i) => paths.map (i :: ·)) ++ [[]]

theorem places_eq (e : Expr α) :
    e.places =
      (e.node.children.zipIdx.flatMap fun (c, i) => c.places.map (i :: ·)) ++ [[]] := by
  rw [places, para_eq, Node.children_map, List.zipIdx_map, List.flatMap_map]
  rfl

theorem mem_places {e : Expr α} {path : List Nat} :
    path ∈ e.places ↔ (e.descend? path).isSome := by
  induction e using induct generalizing path with
  | step e ih =>
    rw [places_eq, List.mem_append, List.mem_flatMap]
    cases path with
    | nil => simp [descend?]
    | cons i path =>
      rw [descend?]
      constructor
      · rintro (⟨⟨c, j⟩, hc, hpath⟩ | hroot)
        · obtain ⟨below, hbelow, hcons⟩ := List.mem_map.mp hpath
          cases hcons
          have hi := List.mem_zipIdx_iff_getElem?.mp hc
          rw [hi, Option.bind_some]
          exact (ih c (List.mem_of_getElem? hi)).mp hbelow
        · cases List.mem_singleton.mp hroot
      · intro h
        cases hi : e.node.children[i]? with
        | none =>
          rw [hi] at h
          cases h
        | some c =>
          rw [hi, Option.bind_some] at h
          refine Or.inl ⟨(c, i), List.mem_zipIdx_iff_getElem?.mpr hi, List.mem_map_of_mem ?_⟩
          exact (ih c (List.mem_of_getElem? hi)).mpr h

/-- No place is listed twice. -/
theorem nodup_places (e : Expr α) : e.places.Nodup := by
  induction e using induct with
  | step e ih =>
    rw [places_eq, List.nodup_append]
    refine ⟨?_, by simp, ?_⟩
    · rw [List.Nodup, List.pairwise_flatMap]
      refine ⟨?_, ?_⟩
      · rintro ⟨c, i⟩ hc
        have hmem := List.mem_of_getElem? (List.mem_zipIdx_iff_getElem?.mp hc)
        rw [List.pairwise_map]
        exact (ih c hmem).imp fun hne hcons => hne (List.cons.inj hcons).2
      · -- what is below different children begins with different positions
        have hpositions : (e.node.children.zipIdx.map Prod.snd).Nodup := by
          rw [List.zipIdx_map_snd]
          exact List.nodup_range' 1
        refine (List.pairwise_map.mp hpositions).imp ?_
        rintro ⟨c, i⟩ ⟨d, j⟩ hne path hpath path' hpath' rfl
        obtain ⟨below, -, rfl⟩ := List.mem_map.mp hpath
        obtain ⟨below', -, hcons⟩ := List.mem_map.mp hpath'
        exact hne (List.cons.inj hcons).1.symm
    · rintro path hpath root hroot rfl
      obtain rfl := List.mem_singleton.mp hroot
      obtain ⟨⟨c, i⟩, -, hpath⟩ := List.mem_flatMap.mp hpath
      obtain ⟨below, -, hcons⟩ := List.mem_map.mp hpath
      cases hcons

/-- What is found at the places of a tree is what is found at those of its children, and at the
root. -/
theorem filterMap_places {δ : Type} (log : Expr α → Option δ) (e : Expr α) :
    (e.places.filterMap fun path => (e.descend? path).bind log) =
      (e.node.children.flatMap fun c =>
          c.places.filterMap fun path => (c.descend? path).bind log) ++ (log e).toList := by
  have hchildren : (e.node.children.zipIdx.flatMap fun (c, i) =>
      (c.places.map (i :: ·)).filterMap fun path => (e.descend? path).bind log) =
        e.node.children.flatMap fun c =>
          c.places.filterMap fun path => (c.descend? path).bind log := by
    conv => rhs; rw [← List.zipIdx_map_fst 0 e.node.children, List.flatMap_map]
    rw [List.flatMap_def, List.flatMap_def]
    congr 1
    apply List.map_congr_left
    rintro ⟨c, i⟩ hc
    have hi := List.mem_zipIdx_iff_getElem?.mp hc
    have hbelow (path : List Nat) : e.descend? (i :: path) = c.descend? path := by
      rw [descend?, hi, Option.bind_some]
    simp only [List.filterMap_map, Function.comp_def, hbelow]
  have hroot : (([[]] : List (List Nat)).filterMap fun path => (e.descend? path).bind log) =
      (log e).toList := by
    cases h : log e <;> simp [descend?, h]
  rw [places_eq, List.filterMap_append, List.filterMap_flatMap, hchildren, hroot]

/-- It matters only what is found. -/
theorem filterMap_places_congr {δ : Type} {e : Expr α} {f g : List Nat → Expr α → Option δ}
    (h : ∀ path s, e.descend? path = some s → f path s = g path s) :
    (e.places.filterMap fun path => (e.descend? path).bind (f path)) =
      e.places.filterMap fun path => (e.descend? path).bind (g path) := by
  congr 1
  funext path
  cases hs : e.descend? path with
  | none => rfl
  | some s => exact h path s hs

section Logs

variable {step : α → Node R → Traced R} {log : Expr α → Option Event}

/-- A fold whose steps report at most one event reports for the places of the tree in post-order. -/
theorem events_foldTraced_places
    (h : ∀ e : Expr α, (step e.note (e.node.map fun c => (c.foldTraced step).value)).events =
      (log e).toList) (e : Expr α) :
    (e.foldTraced step).events = e.places.filterMap fun path => (e.descend? path).bind log := by
  induction e using induct with
  | step e ih =>
    rw [events_foldTraced, h, filterMap_places, List.flatMap_def, List.flatMap_def,
      List.map_congr_left ih]

theorem events_foldTraced_eq_nil_iff
    (h : ∀ e : Expr α, (step e.note (e.node.map fun c => (c.foldTraced step).value)).events =
      (log e).toList) (e : Expr α) :
    (e.foldTraced step).events = [] ↔ e.All fun s => log s = none := by
  induction e using induct with
  | step e ih =>
    rw [events_foldTraced, h, List.append_eq_nil_iff, List.flatMap_eq_nil_iff, all_iff,
      Option.toList_eq_nil_iff, and_comm, forall₂_congr ih]

end Logs

end Expr

/-! ## What is to be reported -/

namespace Event

/-- What is to be reported of a head that has another one in its place after repair. -/
def ofRetag? : Shell → Shell → Option Event
  | .call old name _, .call new _ _ =>
    if new = old then none else some (.retagged name old new)
  | _, _ => none

/-- What is to be reported of a head that has another one in its place after modernizing. -/
def ofReplacement? : Shell → Shell → Option Event
  | .call .., .conditional .. => some .choiceReplaced
  | .call oldKind old _, .call newKind new _ =>
    if newKind = oldKind ∧ new = old then none
    else if old = "get_lp" then some .targetRead
    else some (.renamed old new)
  | _, _ => none

end Event

namespace Expr

variable {α : Type}

theorem events_retagStep (note : α) (n : Node (Expr α)) :
    (retagStep note n).events = (Event.ofRetag? n.shell n.shell.retag).toList := by
  cases n with
  | call kind name args =>
    simp only [retagStep, Node.shell, Node.map, Node.retag, Event.ofRetag?]
    split <;> rfl
  | _ => rfl

theorem events_modernCall (families : Catalog) (kind : CallKind) (name : String)
    (args : List (Expr α)) :
    (modernCall (.ofCatalog families) kind name args).events =
      (Event.ofReplacement? (Node.call kind name args).shell
        (modernCall (.ofCatalog families) kind name args).value.shell).toList := by
  unfold modernCall
  split
  · split
    · rfl
    · simp [Event.ofReplacement?, Node.shell, Node.map]
  · next hchoice =>
    split
    · next hread =>
      obtain ⟨rfl, -, -⟩ := hread
      simp [Event.ofReplacement?, Node.shell, Node.map]
    · split
      · next newKind newName hrename =>
        have hnew := DeprecationTable.rename?_ne hrename
        obtain ⟨-, r, hr, -⟩ := DeprecationTable.rename?_eq_some hrename
        simp [Event.ofReplacement?, Node.shell, Node.map, hnew, (deprecated_ne hr).2.1]
      · simp [Event.ofReplacement?, Node.shell, Node.map]

/-- A step reports how the head that it leaves differs from the one that it was given. -/
theorem events_modernizeStep (families : Catalog) (note : α) (n : Node (Expr α)) :
    (modernizeStep (.ofCatalog families) note n).events = (Event.ofReplacement? n.shell
      (modernizeStep (.ofCatalog families) note n).value.node.shell).toList := by
  cases n with
  | call kind name args =>
    show (_ <$> modernCall (.ofCatalog families) kind name args).events = _
    rw [Traced.events_map, events_modernCall]
    rfl
  | _ => rfl

theorem shell_groupTest (n : Node (Expr α)) : (groupTest n).shell = n.shell := by
  cases n <;> rfl

/-- Modernizing replaces the head of the root by its modern form. -/
theorem shell_modernized (families : Catalog) (e : Expr α) :
    (e.modernized families).node.shell = e.node.shell.modernHead (.ofCatalog families) := by
  obtain ⟨note, node⟩ := e
  cases node with
  | call kind name args =>
    rw [modernized_call, shell_groupTest, Node.shell_modernHead, Node.shell, Node.map, List.map_map]
    rfl
  | _ =>
    rw [modernized_of_not_call families rfl]
    simp only [Node.shell_map]
    rfl

end Expr

namespace Event

theorem ofRetag?_eq_none_iff {s : Shell} : ofRetag? s s.retag = none ↔ s.retag = s := by
  cases s with
  | call kind name places => simp [ofRetag?, Node.retag]
  | _ => exact iff_of_true rfl rfl

theorem ofReplacement?_eq_none_iff {families : Catalog} {s : Shell} :
    ofReplacement? s (s.modernHead (.ofCatalog families)) = none ↔
      s.modernHead (.ofCatalog families) = s := by
  cases s with
  | call kind name places =>
    obtain ⟨rfl, rfl, -, h⟩ | ⟨test, yes, no, -, -, rfl, h⟩ | ⟨-, -, h⟩ :=
      Node.modernHead_call (.ofCatalog families) kind name places
    · simp [h, ofReplacement?]
    · simp [h, ofReplacement?]
    · rw [h, ofReplacement?, Node.call.injEq]
      split
      · next hsame => exact iff_of_true rfl ⟨hsame.1, hsame.2, rfl⟩
      · next hdiffer =>
        refine iff_of_false ?_ fun hsame => hdiffer ⟨hsame.1, hsame.2.1⟩
        split <;> exact Option.some_ne_none _
  | _ => exact iff_of_true rfl rfl

end Event

/-! ## Logs -/

namespace Expr

variable {α β : Type}

/-- The events are what is to be reported of the tree `before`, given what has become of it. A place
of the tree is found again at the place that it has `moved` to. -/
structure ChangeLog (report? : Shell → Shell → Option Event) (moved : List Nat → List Nat)
    (before after : Expr α) (events : List Event) : Prop where
  /-- Every place is found again, and there is something to report of it exactly if it has another
  head. -/
  changed_iff : ∀ path s, before.descend? path = some s → ∃ t,
    after.descend? (moved path) = some t ∧
      ((report? s.node.shell t.node.shell).isSome ↔ t.node.shell ≠ s.node.shell)
  /-- All places are listed, and each of them once. -/
  places_listed : before.places.Nodup ∧ ∀ path, path ∈ before.places ↔ (before.descend? path).isSome
  /-- The events are the reports on the places in post-order. -/
  events_eq : events = before.places.filterMap fun path =>
    (before.descend? path).bind fun s => (after.descend? (moved path)).bind fun t =>
      report? s.node.shell t.node.shell
  /-- There are no events exactly if nothing has changed. -/
  silent_iff : events = [] ↔ after = before

/-- A fold leaves a log of what it changes if each of its steps reports on the head of its node, if
the trees below a node are folded in their places, and if the fold changes a tree only by changing
heads. -/
theorem changeLog_foldTraced {step : α → Node (Expr α) → Traced (Expr α)}
    {report? : Shell → Shell → Option Event} (moved : Expr α → List Nat → List Nat)
    (hevents : ∀ e : Expr α, (step e.note (e.node.map fun c => (c.foldTraced step).value)).events =
      (report? e.node.shell (e.foldTraced step).value.node.shell).toList)
    (hreport : ∀ e : Expr α, report? e.node.shell (e.foldTraced step).value.node.shell = none ↔
      (e.foldTraced step).value.node.shell = e.node.shell)
    (hplaces : ∀ (e : Expr α) path s, e.descend? path = some s →
      (e.foldTraced step).value.descend? (moved e path) = some (s.foldTraced step).value)
    (hsame : ∀ e : Expr α, (e.foldTraced step).value = e ↔
      e.All fun s => (s.foldTraced step).value.node.shell = s.node.shell) (e : Expr α) :
    ChangeLog report? (moved e) e (e.foldTraced step).value (e.foldTraced step).events := by
  refine ⟨?_, ⟨nodup_places e, fun _ => mem_places⟩, ?_, ?_⟩
  · intro path s hs
    refine ⟨(s.foldTraced step).value, hplaces e path s hs, ?_⟩
    rw [← Option.ne_none_iff_isSome]
    exact not_congr (hreport s)
  · rw [events_foldTraced_places hevents]
    apply filterMap_places_congr
    intro path s hs
    rw [hplaces e path s hs, Option.bind_some]
  · rw [events_foldTraced_eq_nil_iff hevents, hsame]
    exact forall₂_congr fun s _ => hreport s

theorem repair_logged (e : Expr α) :
    ChangeLog Event.ofRetag? id e e.repair.value e.repair.events := by
  refine changeLog_foldTraced (fun _ => id) ?_ ?_ ?_ ?_ e
  · intro e
    rw [events_retagStep, Node.shell_map, ← shell_repair]
    rfl
  · intro e
    exact shell_repair e ▸ Event.ofRetag?_eq_none_iff
  · intro e path s hs
    exact (descend?_repair e path).trans (congrArg _ hs)
  · intro e
    refine repaired_iff_tagged.trans (forall₂_congr fun s _ => ?_)
    show s.node.shell.retag = s.node.shell ↔ s.repair.value.node.shell = s.node.shell
    rw [shell_repair]

theorem modernize_logged (families : Catalog) (e : Expr α) :
    ChangeLog Event.ofReplacement? e.placeAfter e (e.modernize (.ofCatalog families)).value
      (e.modernize (.ofCatalog families)).events := by
  refine changeLog_foldTraced placeAfter ?_ ?_ ?_ ?_ e
  · intro e
    rw [events_modernizeStep, Node.shell_map]
    exact congrArg (fun t => (Event.ofReplacement? e.node.shell t.node.shell).toList)
      (value_modernize _ e).symm
  · intro e
    exact shell_modernized families e ▸ Event.ofReplacement?_eq_none_iff
  · intro e path s hs
    exact descend?_modernize _ hs
  · intro e
    refine modernized_eq_self_iff.trans (current_iff_modern.trans (forall₂_congr fun s _ => ?_))
    rw [← shell_modernized]
    rfl

/-! ## Silence -/

/-- Annotations have no part in what is said of all heads. -/
theorem all_mapNotes {Q : Shell → Prop} (f : α → β) (e : Expr α) :
    ((e.mapNotes f).All fun s => Q s.node.shell) ↔ e.All fun s => Q s.node.shell := by
  induction e using induct with
  | step e ih =>
    rw [all_iff, all_iff, node_mapNotes, Node.shell_map, Node.children_map, List.forall_mem_map]
    exact and_congr_right fun _ => forall₂_congr ih

variable [BEq α] {meaning : α → β}

/-- Repair is silent exactly if what it returns counts as equal. -/
theorem repair_silent_iff_beq (h : EqualBy meaning) (e : Expr α) :
    e.repair.events = [] ↔ e.repair.value == e := by
  rw [(repair_logged e).silent_iff, h.mapNotes, ← repair_mapNotes, repaired_iff_tagged,
    repaired_iff_tagged]
  exact (all_mapNotes (Q := fun s => s.retag = s) meaning e).symm

/-- Modernizing is silent exactly if what it returns counts as equal. -/
theorem modernize_silent_iff_beq (h : EqualBy meaning) (families : Catalog) (e : Expr α) :
    (e.modernize (.ofCatalog families)).events = [] ↔
      (e.modernize (.ofCatalog families)).value == e := by
  rw [(modernize_logged families e).silent_iff, h.mapNotes, ← modernize_mapNotes]
  refine modernized_eq_self_iff.trans ?_
  refine Iff.trans ?_ modernized_eq_self_iff.symm
  rw [current_iff_modern, current_iff_modern]
  exact (all_mapNotes (Q := fun s => s.modernHead (.ofCatalog families) = s) meaning e).symm

end Expr

/-- Repair reports the calls that get another kind, with their names and both kinds, and modernizing
reports the calls that are replaced, a renamed one with both names. Both do so in post-order, once
for each such call, and report nothing else. They are silent exactly if they return the tree as it
was, and also exactly if what they return counts as equal. -/
theorem Expr.passes_logged :
    (∀ (α : Type) (e : Expr α), ChangeLog Event.ofRetag? id e e.repair.value e.repair.events) ∧
      (∀ (families : Catalog) (e : Expr Typed),
        ChangeLog Event.ofReplacement? e.placeAfter e (e.modernize (.ofCatalog families)).value
          (e.modernize (.ofCatalog families)).events) ∧
      (∀ e : Expr Untyped, e.repair.events = [] ↔ e.repair.value == e) ∧
      (∀ e : Expr Typed, e.repair.events = [] ↔ e.repair.value == e) ∧
      (∀ e : Expr Labelled, e.repair.events = [] ↔ e.repair.value == e) ∧
      ∀ (families : Catalog) (e : Expr Typed),
        (e.modernize (.ofCatalog families)).events = [] ↔
          (e.modernize (.ofCatalog families)).value == e := by
  refine ⟨?_, ?_, ?_, ?_, ?_, ?_⟩
  · exact fun _ e => repair_logged e
  · exact fun families e => modernize_logged families e
  · exact repair_silent_iff_beq equalBy_untyped
  · exact repair_silent_iff_beq equalBy_typed
  · exact repair_silent_iff_beq equalBy_labelled
  · exact modernize_silent_iff_beq equalBy_typed

end ModelForm
