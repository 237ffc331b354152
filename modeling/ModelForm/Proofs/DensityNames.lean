import ModelForm.Proofs.Fusion

/-!
# Names of densities

Two functions look for a suffix at the end of a name, each in the order of its own list, and take
the first that fits. One wants something before the suffix and the other does not. Since no suffix
is the end of another, neither depends on the order, and what stands before the suffix is known with
it.

* `DensitySuffix.find?_ends_of_perm` — the suffixes may be tried in any order.
* `stripDensitySuffix_append_text` — what is left, with its suffix, is the name.
* `suffix_read_uniquely` — all that is read off a name.
-/

namespace ModelForm

namespace DensitySuffix

theorem mem_texts_iff {suffix : String} :
    suffix ∈ ["_lpdf", "_lupdf", "_lpmf", "_lupmf"] ↔ ∃ s : DensitySuffix, s.text = suffix := by
  have htexts : ["_lpdf", "_lupdf", "_lpmf", "_lupmf"] = all.map text := rfl
  rw [htexts, List.mem_map]
  constructor
  · rintro ⟨s, -, rfl⟩
    exact ⟨s, rfl⟩
  · rintro ⟨s, rfl⟩
    exact ⟨s, mem_all s, rfl⟩

theorem find?_ends_of_perm {suffixes : List DensitySuffix} (h : suffixes.Perm all)
    (name : String) : suffixes.find? (fun s => s.ends name) = densitySuffix? name := by
  have hall (s : DensitySuffix) : s ∈ suffixes := h.mem_iff.mpr (mem_all s)
  apply Option.ext
  intro s
  rw [find?_ends_eq_some_iff hall, densitySuffix?_eq_some_iff]

end DensitySuffix

theorem densitySuffix?_map_text_eq_some_iff {name suffix : String} :
    (densitySuffix? name).map DensitySuffix.text = some suffix ↔
      suffix ∈ ["_lpdf", "_lupdf", "_lpmf", "_lupmf"] ∧
        ∃ stem, stem ≠ "" ∧ name = stem ++ suffix := by
  rw [DensitySuffix.mem_texts_iff, Option.map_eq_some_iff]
  constructor
  · rintro ⟨s, hs, rfl⟩
    obtain ⟨stem, hname, hstem⟩ := densitySuffix?_eq_some_iff.mp hs
    exact ⟨⟨s, rfl⟩, stem, hstem, hname⟩
  · rintro ⟨⟨s, rfl⟩, stem, hstem, hname⟩
    exact ⟨s, densitySuffix?_eq_some_iff.mpr ⟨stem, hname, hstem⟩, rfl⟩

/-- The suffix is shorter than the name, and no character reaches into it. -/
theorem isValid_of_densitySuffix? {name : String} {s : DensitySuffix}
    (h : densitySuffix? name = some s) : s.text.utf8ByteSize < name.utf8ByteSize ∧
      String.Pos.Raw.IsValid name ⟨name.utf8ByteSize - s.text.utf8ByteSize⟩ := by
  obtain ⟨stem, rfl, hstem⟩ := densitySuffix?_eq_some_iff.mp h
  have hsize : stem.utf8ByteSize ≠ 0 := mt String.utf8ByteSize_eq_zero_iff.mp hstem
  rw [String.utf8ByteSize_append, Nat.add_sub_cancel]
  exact ⟨by omega, isValid_append stem s.text⟩

theorem stripDensitySuffix?_eq (name : String) :
    stripDensitySuffix? name = some (stripDensitySuffix name) := by
  rw [stripDensitySuffix, Option.some_get]

theorem stripDensitySuffix_append_text {name : String} {s : DensitySuffix}
    (h : densitySuffix? name = some s) :
    stripDensitySuffix name ≠ "" ∧ stripDensitySuffix name ++ s.text = name := by
  obtain ⟨stem, rfl, hstem⟩ := densitySuffix?_eq_some_iff.mp h
  rw [stripDensitySuffix_append hstem]
  exact ⟨hstem, rfl⟩

/-- What the two searches for a suffix read off a name. -/
structure ReadsSuffix (name : String) : Prop where
  /-- A suffix is found if and only if it is one of the four and stands behind something. -/
  some_iff (suffix : String) : (densitySuffix? name).map DensitySuffix.text = some suffix ↔
    suffix ∈ ["_lpdf", "_lupdf", "_lpmf", "_lupmf"] ∧ ∃ stem, stem ≠ "" ∧ name = stem ++ suffix
  /-- The name comes apart in one way at most, also if nothing stands before the suffix. -/
  unique {stem stem' : String} {s t : DensitySuffix} (h : name = stem ++ s.text)
    (h' : name = stem' ++ t.text) : stem = stem' ∧ s = t
  any_order {suffixes : List DensitySuffix} (h : suffixes.Perm DensitySuffix.all) :
    suffixes.find? (fun s => s.ends name) = densitySuffix? name
  /-- The bytes of the suffix can be taken off the name, and that cuts no character. -/
  cut {s : DensitySuffix} (h : densitySuffix? name = some s) :
    s.text.utf8ByteSize < name.utf8ByteSize ∧
      String.Pos.Raw.IsValid name ⟨name.utf8ByteSize - s.text.utf8ByteSize⟩
  stripped : stripDensitySuffix? name = some (stripDensitySuffix name)
  /-- What is left is what stands before the suffix. -/
  stem {s : DensitySuffix} (h : densitySuffix? name = some s) :
    stripDensitySuffix name ≠ "" ∧ stripDensitySuffix name ++ s.text = name
  no_suffix (h : densitySuffix? name = none) : stripDensitySuffix name = name
  /-- Behind the name, whatever it is, the suffix of a mass function is found, and the name is the
  family. -/
  mass {s : DensitySuffix} (h : s ∈ massSuffixes) : splitMass? (name ++ s.text) = some (name, s) ∧
    ∀ args, fuseCall? (name ++ s.text) args = fuse? name s.text args

/-- **Suffixes are read off names in one way.** For every name, the suffix that is found and what
stands before it are the only ones that there are. -/
theorem suffix_read_uniquely (name : String) : ReadsSuffix name where
  some_iff _ := densitySuffix?_map_text_eq_some_iff
  unique h h' := DensitySuffix.append_text_inj.mp (h.symm.trans h')
  any_order h := DensitySuffix.find?_ends_of_perm h name
  cut := isValid_of_densitySuffix?
  stripped := stripDensitySuffix?_eq name
  stem := stripDensitySuffix_append_text
  no_suffix := stripDensitySuffix_of_eq_none
  mass h := ⟨splitMass?_eq_some_iff.mpr ⟨h, rfl⟩, fuseCall?_append name h⟩

/-- The first character takes two bytes, and what is left has a suffix again. -/
theorem suffix_read_uniquely_stacked :
    densitySuffix? "λ_lpdf_lupmf" = some .lupmf ∧
      [DensitySuffix.lpmf, .lupmf, .lpdf, .lupdf].find? (fun s => s.ends "λ_lpdf_lupmf") =
        some .lupmf ∧
      String.Pos.Raw.IsValid "λ_lpdf_lupmf" ⟨7⟩ ∧
      stripDensitySuffix "λ_lpdf_lupmf" ++ "_lupmf" = "λ_lpdf_lupmf" ∧
      splitMass? "λ_lpdf_lupmf" = some ("λ_lpdf", .lupmf) := by
  have hsuffix : densitySuffix? "λ_lpdf_lupmf" = some .lupmf := by decide
  have hread := suffix_read_uniquely "λ_lpdf_lupmf"
  have horder : [DensitySuffix.lpmf, .lupmf, .lpdf, .lupdf].Perm DensitySuffix.all := by decide
  have hmass : DensitySuffix.lupmf ∈ massSuffixes := by decide
  refine ⟨hsuffix, ?_, (hread.cut hsuffix).2, (hread.stem hsuffix).2, ?_⟩
  · rw [hread.any_order horder, hsuffix]
  · exact ((suffix_read_uniquely "λ_lpdf").mass hmass).1

end ModelForm
