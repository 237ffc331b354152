import Mathlib.Data.List.Nodup
import ModelForm.Proofs.Labelling

/-!
# Looking nodes up by their labels

The nodes of a tree are put into a map one after the other in pre-order. `Holds` is what is true of
the map all along: it has an entry for each node that was put in, under the node's label, and no
others.

* `Holds.record_new`, `Holds.record_old` — what one node does to such a map: it is added if its
  label is new, and is refused if it is not.
* `Holds.foldlM_record` — so a whole list is taken in as long as the labels are distinct.
* `FirstRepeat` — how labels fail to be distinct. A list of labels is either distinct or has a first
  repeat (`nodup_or_firstRepeat`), and accordingly the map is filled or that repeat is reported.

`Associated` says what a filled map is good for, and `Expr.associate_lawful` puts all this together.
-/

namespace ModelForm

/-! ## What a map holds -/

/-- The map holds exactly the given nodes, each of them under its label. -/
structure Holds (found : Association) (ns : List (Expr Labelled)) : Prop where
  size_eq : found.size = ns.length
  getElem?_eq_some_iff : ∀ label s, found[label]? = some s ↔ s ∈ ns ∧ s.note.label = label

namespace Holds

variable {found : Association} {ns : List (Expr Labelled)} {s : Expr Labelled}

theorem empty : Holds ∅ [] := ⟨by simp, by simp⟩

theorem contains_iff (h : Holds found ns) (label : Label) :
    found.contains label ↔ label ∈ ns.map (·.note.label) := by
  rw [Std.TreeMap.contains_eq_isSome_getElem?, Option.isSome_iff_exists, List.mem_map]
  exact exists_congr fun s => h.getElem?_eq_some_iff label s

/-- A node whose label is there already is refused. -/
theorem record_old (h : Holds found ns) (hs : s.note.label ∈ ns.map (·.note.label)) :
    Expr.record found s = .error (.duplicate s.note.label) := by
  rw [Expr.record, if_pos ((h.contains_iff _).mpr hs)]

/-- A node with a new label is added. -/
theorem record_new (h : Holds found ns) (hs : s.note.label ∉ ns.map (·.note.label)) :
    ∃ more, Expr.record found s = .ok more ∧ Holds more (ns ++ [s]) := by
  have hnew : ¬found.contains s.note.label := mt (h.contains_iff _).mp hs
  refine ⟨found.insert s.note.label s, ?_, ?_, ?_⟩
  · rw [Expr.record, if_neg hnew]
  · rw [Std.TreeMap.size_insert, if_neg hnew, h.size_eq, List.length_append]
    rfl
  · intro label t
    rw [Std.TreeMap.getElem?_insert, List.mem_append, List.mem_singleton]
    by_cases hlabel : s.note.label = label
    · rw [if_pos (Std.compare_eq_iff_eq.mpr hlabel), Option.some.injEq]
      constructor
      · rintro rfl
        exact ⟨Or.inr rfl, hlabel⟩
      · rintro ⟨hmem | rfl, ht⟩
        · -- nothing else is found under the new label
          rw [hlabel, ← ht] at hs
          exact absurd (List.mem_map_of_mem hmem) hs
        · rfl
    · rw [if_neg (mt Std.compare_eq_iff_eq.mp hlabel), h.getElem?_eq_some_iff]
      constructor
      · exact fun ⟨hmem, ht⟩ => ⟨Or.inl hmem, ht⟩
      · rintro ⟨hmem | rfl, ht⟩
        · exact ⟨hmem, ht⟩
        · exact absurd ht hlabel

/-- Nodes with distinct new labels are all added. -/
theorem foldlM_record {more : List (Expr Labelled)} (h : Holds found ns)
    (hlabels : ((ns ++ more).map (·.note.label)).Nodup) :
    ∃ all, more.foldlM Expr.record found = .ok all ∧ Holds all (ns ++ more) := by
  induction more generalizing found ns with
  | nil =>
    rw [List.append_nil]
    exact ⟨found, rfl, h⟩
  | cons s more ih =>
    have hs : s.note.label ∉ ns.map (·.note.label) := by
      rw [List.map_append, List.map_cons] at hlabels
      intro hmem
      exact (List.nodup_append.mp hlabels).2.2 _ hmem _ List.mem_cons_self rfl
    obtain ⟨found', hrecord, hfound'⟩ := h.record_new hs
    rw [List.append_cons] at hlabels ⊢
    obtain ⟨all, hall, hholds⟩ := ih hfound' hlabels
    refine ⟨all, ?_, hholds⟩
    rw [List.foldlM_cons, hrecord]
    exact hall

end Holds

/-! ## Repeats -/

/-- The label comes again in the list, and none comes again before it does. -/
def FirstRepeat (label : Label) (labels : List Label) : Prop :=
  ∃ before after, labels = before ++ label :: after ∧ before.Nodup ∧ label ∈ before

theorem FirstRepeat.not_nodup {label : Label} {labels : List Label}
    (h : FirstRepeat label labels) : ¬labels.Nodup := by
  obtain ⟨before, after, rfl, -, hmem⟩ := h
  intro hnodup
  exact (List.nodup_append.mp hnodup).2.2 _ hmem _ List.mem_cons_self rfl

theorem nodup_or_firstRepeat {before : List Label} (h : before.Nodup) (labels : List Label) :
    (before ++ labels).Nodup ∨ ∃ label, FirstRepeat label (before ++ labels) := by
  induction labels generalizing before with
  | nil =>
    rw [List.append_nil]
    exact Or.inl h
  | cons label labels ih =>
    by_cases hmem : label ∈ before
    · exact Or.inr ⟨label, before, labels, rfl, h, hmem⟩
    · rw [List.append_cons]
      apply ih
      rw [List.nodup_append]
      refine ⟨h, List.nodup_singleton label, ?_⟩
      rintro l hl m hm rfl
      rw [List.mem_singleton] at hm
      exact hmem (hm ▸ hl)

/-! ## Filled maps -/

/-- Every node of the tree is found under its label. -/
structure Associated (e : Expr Labelled) (found : Association) : Prop where
  /-- There is one entry for each node. -/
  size_eq : found.size = e.nodeCount
  /-- Under its label a node is found, with all that is below it. -/
  getElem?_label : ∀ s ∈ e.nodes, found[s.note.label]? = some s
  /-- Nothing is found under a label that no node carries. -/
  getElem?_eq_none : ∀ label, label ∉ e.labels → found[label]? = none
  /-- The entries are listed in the order of their labels. -/
  ascending : found.toList.Pairwise fun a b => a.1 < b.1
  /-- Each node is listed once, with its label. -/
  listed : found.toList.Perm (e.nodes.map fun s => (s.note.label, s))

theorem Association.ascending_toList (found : Association) :
    found.toList.Pairwise fun a b => a.1 < b.1 :=
  found.ordered_keys_toList.imp Std.compare_eq_lt.mp

/-- Only one node carries a label, so what a map holds it holds once. -/
theorem Holds.listed {found : Association} {ns : List (Expr Labelled)} (h : Holds found ns)
    (hlabels : (ns.map (·.note.label)).Nodup) :
    found.toList.Perm (ns.map fun s => (s.note.label, s)) := by
  have hentries : found.toList.Nodup := by
    refine found.ascending_toList.imp ?_
    rintro a b hlt rfl
    exact UInt32.lt_irrefl _ hlt
  have hnodes : (ns.map fun s => (s.note.label, s)).Nodup := by
    apply List.Nodup.of_map Prod.fst
    rwa [List.map_map]
  rw [List.perm_ext_iff_of_nodup hentries hnodes]
  rintro ⟨label, s⟩
  rw [Std.TreeMap.mem_toList_iff_getElem?_eq_some, h.getElem?_eq_some_iff, List.mem_map]
  constructor
  · rintro ⟨hmem, rfl⟩
    exact ⟨s, hmem, rfl⟩
  · rintro ⟨t, hmem, heq⟩
    obtain ⟨rfl, rfl⟩ := Prod.mk.inj heq
    exact ⟨hmem, rfl⟩

theorem Holds.associated {found : Association} {e : Expr Labelled} (h : Holds found e.nodes)
    (hlabels : e.labels.Nodup) : Associated e found where
  size_eq := h.size_eq.trans e.size_eq_nodeCount
  getElem?_label s hs := (h.getElem?_eq_some_iff _ _).mpr ⟨hs, rfl⟩
  getElem?_eq_none label hlabel := by
    rw [Option.eq_none_iff_forall_ne_some]
    intro s hs
    obtain ⟨hmem, rfl⟩ := (h.getElem?_eq_some_iff _ _).mp hs
    exact hlabel (List.mem_map_of_mem hmem)
  ascending := found.ascending_toList
  listed := h.listed hlabels

namespace Expr

theorem associate_of_nodup {e : Expr Labelled} (h : e.labels.Nodup) :
    ∃ found, e.associate = .ok found ∧ Associated e found := by
  obtain ⟨found, hfound, hholds⟩ := Holds.empty.foldlM_record h
  exact ⟨found, hfound, Holds.associated hholds h⟩

theorem associate_of_firstRepeat {e : Expr Labelled} {label : Label}
    (h : FirstRepeat label e.labels) : e.associate = .error (.duplicate label) := by
  obtain ⟨before, after, hlabels, hnodup, hmem⟩ := h
  obtain ⟨ns, rest, hnodes, rfl, hrest⟩ := List.map_eq_append_iff.mp hlabels
  obtain ⟨s, more, rfl, rfl, -⟩ := List.map_eq_cons_iff.mp hrest
  obtain ⟨found, hfound, hholds⟩ := Holds.empty.foldlM_record hnodup
  rw [associate, hnodes, List.foldlM_append, hfound]
  show (do let found ← record found s; more.foldlM record found) = _
  rw [hholds.record_old hmem]
  rfl

/-! ## Numbered trees -/

theorem nodup_labels {start : Nat} {e : Expr Typed} {t : Expr Labelled} (h : Numbered start e t) :
    t.labels.Nodup := by
  apply List.Nodup.of_map UInt32.toNat
  rw [h.subtree t t.self_mem_nodes]
  exact List.nodup_range'

/-- In a numbered tree the nodes are found by their distance from the root. -/
theorem getElem?_of_numbered {start : Label} {e : Expr Typed} {t : Expr Labelled}
    {found : Association} (h : Numbered start.toNat e t) (hfound : Associated t found) {i : Nat}
    (hi : i < e.nodeCount) : found[start + UInt32.ofNat i]? = t.nodes[i]? := by
  have hlength : i < t.nodes.length := by
    rw [← h.size_eq] at hi
    exact hi
  have hs := List.getElem?_eq_getElem hlength
  have hlabel : (t.nodes[i]).note.label = start + UInt32.ofNat i := by
    have hnat := h.label_eq i _ hs
    have hbound := UInt32.toNat_lt (t.nodes[i]).note.label
    apply UInt32.toNat_inj.mp
    rw [UInt32.toNat_add, UInt32.toNat_ofNat', hnat]
    omega
  rw [hs, ← hlabel]
  exact hfound.getElem?_label _ (List.getElem_mem hlength)

/-- Association succeeds exactly if all labels are distinct. Then every node is found under its
label, and otherwise the first label that comes again is reported. In particular labelled trees can
be looked up, by how far a node is from the root. -/
theorem associate_lawful (e : Expr Labelled) :
    ((∃ found, e.associate = .ok found) ↔ e.labels.Nodup) ∧
      (∀ found, e.associate = .ok found → Associated e found) ∧
      (∀ error, e.associate = .error error ↔
        ∃ label, error = .duplicate label ∧ FirstRepeat label e.labels) ∧
      ∀ (typed : Expr Typed) (start : Label) (t : Expr Labelled), typed.label start = .ok t →
        ∃ found, t.associate = .ok found ∧
          ∀ i, i < typed.nodeCount → found[start + UInt32.ofNat i]? = t.nodes[i]? := by
  have hnumbered : ∀ (typed : Expr Typed) (start : Label) (t : Expr Labelled),
      typed.label start = .ok t → ∃ found, t.associate = .ok found ∧
        ∀ i, i < typed.nodeCount → found[start + UInt32.ofNat i]? = t.nodes[i]? := by
    intro typed start t ht
    have hnumbered := numbered_of_label ht
    obtain ⟨found, hok, hfound⟩ := associate_of_nodup (nodup_labels hnumbered)
    exact ⟨found, hok, fun i hi => getElem?_of_numbered hnumbered hfound hi⟩
  rcases nodup_or_firstRepeat List.nodup_nil e.labels with hnodup | ⟨label, hrepeat⟩
  · obtain ⟨found, hok, hfound⟩ := associate_of_nodup hnodup
    refine ⟨iff_of_true ⟨found, hok⟩ hnodup, ?_, ?_, hnumbered⟩
    · intro found' hok'
      rw [hok] at hok'
      rwa [← Except.ok.inj hok']
    · intro error
      refine iff_of_false (by rw [hok]; exact nofun) ?_
      rintro ⟨label, -, hrepeat⟩
      exact hrepeat.not_nodup hnodup
  · have herror := associate_of_firstRepeat hrepeat
    refine ⟨iff_of_false (by rw [herror]; exact nofun) hrepeat.not_nodup, ?_, ?_, hnumbered⟩
    · intro found hok
      rw [herror] at hok
      cases hok
    · intro error
      constructor
      · intro heq
        rw [herror] at heq
        exact ⟨label, (Except.error.inj heq).symm, hrepeat⟩
      · rintro ⟨label', rfl, hrepeat'⟩
        exact associate_of_firstRepeat hrepeat'

/-- A call `f(x, y)` with the labels 9 and 4 and the given one. -/
def labelledCall (label : Label) : Expr Labelled :=
  let note := Typed.data .int
  ⟨note.withLabel 9, .call .user "f"
    [⟨note.withLabel 4, .var "x"⟩, ⟨note.withLabel label, .var "y"⟩]⟩

theorem labels_labelledCall (label : Label) : (labelledCall label).labels = [9, 4, label] := by
  simp [labels_eq, labelledCall, Node.children, Typed.withLabel]

def groupedVar : Expr Typed := ⟨.data .int, .paren ⟨.data .int, .var "x"⟩⟩

/-- A tree with labels out of order, one with a label that comes again, and one that is numbered up
to the largest label. -/
theorem associate_lawful_labelledCall :
    (∃ found, (labelledCall 6).associate = .ok found ∧ Associated (labelledCall 6) found) ∧
      (labelledCall 4).associate = .error (.duplicate 4) ∧
      ∃ t found, groupedVar.label 4294967294 = .ok t ∧ t.associate = .ok found ∧
        found[(4294967295 : Label)]? = t.nodes[1]? := by
  obtain ⟨hiff, hassociated, -, hnumbered⟩ := associate_lawful (labelledCall 6)
  obtain ⟨-, -, herror, -⟩ := associate_lawful (labelledCall 4)
  refine ⟨?_, ?_, ?_⟩
  · obtain ⟨found, hfound⟩ := hiff.mpr (by rw [labels_labelledCall]; decide)
    exact ⟨found, hfound, hassociated found hfound⟩
  · refine (herror _).mpr ⟨4, rfl, [9, 4], [], ?_, by decide, by decide⟩
    exact labels_labelledCall 4
  · have hlabel := label_eq_number groupedVar 4294967294
    cases hnumber : (groupedVar.number (some 4294967294)).1 with
    | none => exact absurd ((number_eq_none_iff _ _).mp hnumber) (by decide)
    | some t =>
      rw [hnumber] at hlabel
      obtain ⟨found, hok, hget⟩ := hnumbered groupedVar 4294967294 t hlabel
      exact ⟨t, found, hlabel, hok, hget 1 (by decide)⟩

end Expr

end ModelForm
