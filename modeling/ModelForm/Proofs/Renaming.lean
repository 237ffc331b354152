import ModelForm.Deprecation

/-!
# Deprecated names and their replacements

The table of a catalog never leads from one deprecated name to another, whatever the families of
the catalog are called: deprecated names end in `_log` or are two fixed ones, and what replaces them
ends otherwise. Three characters from the back are enough to tell the two apart (`ending`).

* `stripSuffix?_eq_some_iff`, `densitySuffix?_eq_some_iff` — what the suffixes of names say.
* `DensitySuffix.append_text_inj` — a name has one density suffix at most.
* `DeprecationTable.getElem?_ofCatalog` — the last entry for a name counts.
* `DeprecationTable.rename?_eq_some` — where the call that replaces another comes from.
* `DeprecationTable.rename?_replaced` — a replacement is not deprecated itself.
-/

namespace ModelForm

/-! ## Suffixes -/

theorem stripSuffix?_eq_some_iff {name suffix stem : String} :
    stripSuffix? name suffix = some stem ↔ name = stem ++ suffix := by
  rw [stripSuffix?, Option.ite_none_right_eq_some, List.isSuffixOf_iff_suffix,
    Option.some.injEq]
  constructor
  · rintro ⟨⟨front, hfront⟩, rfl⟩
    rw [← String.toList_inj, String.toList_append, String.toList_ofList, ← hfront]
    simp
  · rintro rfl
    rw [String.toList_append]
    refine ⟨List.suffix_append _ _, ?_⟩
    simp

/-- The last four characters tell density suffixes apart, so a name has one of them at most, and
one stem. -/
theorem DensitySuffix.append_text_inj {stem stem' : String} {s t : DensitySuffix} :
    stem ++ s.text = stem' ++ t.text ↔ stem = stem' ∧ s = t := by
  have hback (stem : String) (s : DensitySuffix) :
      (stem ++ s.text).toList.reverse.take 4 = s.text.toList.reverse.take 4 := by
    rw [String.toList_append, List.reverse_append, List.take_append_of_le_length]
    cases s <;> decide
  constructor
  · intro h
    have hsame : s.text.toList.reverse.take 4 = t.text.toList.reverse.take 4 := by
      rw [← hback stem s, h, hback]
    obtain rfl : s = t := by
      revert hsame
      cases s <;> cases t <;> decide
    exact ⟨String.append_left_inj s.text |>.mp h, rfl⟩
  · rintro ⟨rfl, rfl⟩
    rfl

theorem stripSuffix?_append_text (stem : String) (s t : DensitySuffix) :
    stripSuffix? (stem ++ s.text) t.text = if s = t then some stem else none := by
  split
  · next h =>
    subst h
    exact stripSuffix?_eq_some_iff.mpr rfl
  · next h =>
    rw [Option.eq_none_iff_forall_ne_some]
    intro stem' hstem
    exact h (DensitySuffix.append_text_inj.mp (stripSuffix?_eq_some_iff.mp hstem)).2

/-- Among suffixes with none left out, the one that a name has is found wherever it stands. -/
theorem DensitySuffix.find?_ends_eq_some_iff {suffixes : List DensitySuffix}
    (hall : ∀ s, s ∈ suffixes) {name : String} {s : DensitySuffix} :
    suffixes.find? (fun t => t.ends name) = some s ↔
      ∃ stem, name = stem ++ s.text ∧ stem ≠ "" := by
  constructor
  · exact exists_stem
  · rintro ⟨stem, rfl, hstem⟩
    have hends : s.ends (stem ++ s.text) := ends_iff.mpr ⟨stem, rfl, hstem⟩
    have hfound : (suffixes.find? fun t => t.ends (stem ++ s.text)).isSome :=
      List.find?_isSome.mpr ⟨s, hall s, hends⟩
    obtain ⟨t, ht⟩ := Option.isSome_iff_exists.mp hfound
    -- an earlier suffix that fits would be a second end of the same name
    obtain ⟨stem', hsame, -⟩ := exists_stem ht
    rw [ht, (append_text_inj.mp hsame).2]

theorem DensitySuffix.mem_all (s : DensitySuffix) : s ∈ all := by
  cases s <;> decide

theorem densitySuffix?_eq_some_iff {name : String} {s : DensitySuffix} :
    densitySuffix? name = some s ↔ ∃ stem, name = stem ++ s.text ∧ stem ≠ "" :=
  DensitySuffix.find?_ends_eq_some_iff DensitySuffix.mem_all

/-- The name is a density suffix with something before it. -/
def NamesDensity (name : String) : Prop :=
  ∃ stem, ∃ s : DensitySuffix, name = stem ++ s.text ∧ stem ≠ ""

theorem isSome_densitySuffix?_iff {name : String} :
    (densitySuffix? name).isSome ↔ NamesDensity name := by
  simp only [Option.isSome_iff_exists, densitySuffix?_eq_some_iff]
  exact exists_comm

/-- The last three characters of a name, the last one first. -/
def ending (name : String) : List Char := name.toList.reverse.take 3

theorem ending_append {a b : String} (h : 3 ≤ b.toList.length) : ending (a ++ b) = ending b := by
  rw [ending, String.toList_append, List.reverse_append, List.take_append_of_le_length]
  · rfl
  · simpa using h

/-- The name of a density ends in `pdf` or in `pmf`, and so does a suffix alone. -/
theorem ending_append_text (stem : String) (s : DensitySuffix) :
    ending (stem ++ s.text) = ['f', 'd', 'p'] ∨ ending (stem ++ s.text) = ['f', 'm', 'p'] := by
  rw [ending_append (by cases s <;> decide)]
  cases s <;> decide

theorem ending_of_densitySuffix? {name : String} (h : (densitySuffix? name).isSome) :
    ending name = ['f', 'd', 'p'] ∨ ending name = ['f', 'm', 'p'] := by
  obtain ⟨stem, s, rfl, -⟩ := isSome_densitySuffix?_iff.mp h
  exact ending_append_text stem s

/-- Something before a density suffix makes the name of a density. -/
theorem densitySuffix?_append {stem : String} (h : stem ≠ "") (s : DensitySuffix) :
    (densitySuffix? (stem ++ s.text)).isSome :=
  isSome_densitySuffix?_iff.mpr ⟨stem, s, rfl, h⟩

/-- A name of a density comes apart in one way. -/
theorem stripDensitySuffix_append {stem : String} (h : stem ≠ "") (s : DensitySuffix) :
    stripDensitySuffix (stem ++ s.text) = stem := by
  have hsuffix : densitySuffix? (stem ++ s.text) = some s :=
    densitySuffix?_eq_some_iff.mpr ⟨stem, rfl, h⟩
  have hstrip : stripDensitySuffix? (stem ++ s.text) = some stem := by
    rw [stripDensitySuffix?, hsuffix]
    exact takeBytes?_append_sub stem s.text
  exact Option.get_of_eq_some _ hstrip

theorem stripDensitySuffix_of_eq_none {name : String} (h : densitySuffix? name = none) :
    stripDensitySuffix name = name := by
  have hstrip : stripDensitySuffix? name = some name := by
    rw [stripDensitySuffix?, h]
  exact Option.get_of_eq_some _ hstrip

/-! ## Entries of a catalog -/

theorem Family.mem_oldSpellings {f : Family} {old : String} {r : Replacement} :
    (old, r) ∈ f.oldSpellings ↔
      (f.provides .density ∧ old = f.name ++ "_log" ∧
        r = ⟨f.name ++ f.support.suffix.text, true⟩) ∨
      (f.provides .lcdf ∧ old = f.name ++ "_cdf_log" ∧ r = ⟨f.name ++ "_lcdf", false⟩) ∨
      (f.provides .lccdf ∧ old = f.name ++ "_ccdf_log" ∧ r = ⟨f.name ++ "_lccdf", false⟩) := by
  simp only [oldSpellings, List.mem_append, List.mem_ite_nil_right, List.mem_singleton,
    Prod.mk.injEq, or_assoc]

/-- An entry is a fixed one, or an old spelling of a function that a family provides. -/
theorem mem_deprecated {families : Catalog} {old : String} {r : Replacement} :
    (old, r) ∈ families.deprecated ↔ (old, r) ∈ renamedFunctions ∨ ∃ f ∈ families,
      (f.provides .density ∧ old = f.name ++ "_log" ∧
        r = ⟨f.name ++ f.support.suffix.text, true⟩) ∨
      (f.provides .lcdf ∧ old = f.name ++ "_cdf_log" ∧ r = ⟨f.name ++ "_lcdf", false⟩) ∨
      (f.provides .lccdf ∧ old = f.name ++ "_ccdf_log" ∧ r = ⟨f.name ++ "_lccdf", false⟩) := by
  simp only [Catalog.deprecated, List.mem_append, List.mem_flatMap, Family.mem_oldSpellings]

/-- A deprecated name ends in `log`, but for two. -/
theorem ending_deprecated {families : Catalog} {old : String} {r : Replacement}
    (h : (old, r) ∈ families.deprecated) :
    ending old = ['g', 'o', 'l'] ∨ old = "cov_exp_quad" ∨ old = "fabs" := by
  have hfixed : ∀ entry ∈ renamedFunctions,
      ending entry.1 = ['g', 'o', 'l'] ∨ entry.1 = "cov_exp_quad" ∨ entry.1 = "fabs" := by
    decide
  rcases mem_deprecated.mp h with h | ⟨f, -, ⟨-, rfl, -⟩ | ⟨-, rfl, -⟩ | ⟨-, rfl, -⟩⟩
  · exact hfixed _ h
  all_goals
    left
    rw [ending_append (by decide)]
    decide

/-- A replacement is a density of a family, or is applied plainly and is one of four functions or
ends as distribution functions do. -/
theorem replacement_cases {families : Catalog} {old : String} {r : Replacement}
    (h : (old, r) ∈ families.deprecated) :
    (∃ f ∈ families, r = ⟨f.name ++ f.support.suffix.text, true⟩) ∨
      r.conditional = false ∧ (ending r.name = ['f', 'd', 'c'] ∨
        r.name ∈ ["lchoose", "lmultiply", "gp_exp_quad_cov", "abs"]) := by
  have hfixed : ∀ entry ∈ renamedFunctions, entry.2.conditional = false ∧
      entry.2.name ∈ ["lchoose", "lmultiply", "gp_exp_quad_cov", "abs"] := by
    decide
  rcases mem_deprecated.mp h with h | ⟨f, hf, ⟨-, -, rfl⟩ | ⟨-, -, rfl⟩ | ⟨-, -, rfl⟩⟩
  · exact Or.inr ⟨(hfixed _ h).1, Or.inr (hfixed _ h).2⟩
  · exact Or.inl ⟨f, hf, rfl⟩
  all_goals
    right
    refine ⟨rfl, Or.inl ?_⟩
    rw [ending_append (by decide)]
    decide

/-- A deprecated name is neither of the two calls that are replaced by something else than a call of
another name, and it is not the name of a density. -/
theorem deprecated_ne {families : Catalog} {old : String} {r : Replacement}
    (h : (old, r) ∈ families.deprecated) :
    old ≠ "if_else" ∧ old ≠ "get_lp" ∧ densitySuffix? old = none := by
  have hold := ending_deprecated h
  have hdensity : densitySuffix? old = none := by
    rw [← Option.not_isSome_iff_eq_none]
    intro hsome
    have hend := ending_of_densitySuffix? hsome
    rcases hold with hold | rfl | rfl
    · rw [hold] at hend
      revert hend
      decide
    all_goals
      revert hend
      decide
  refine ⟨?_, ?_, hdensity⟩
  all_goals
    rintro rfl
    revert hold
    decide

theorem ending_replacement {families : Catalog} {old : String} {r : Replacement}
    (h : (old, r) ∈ families.deprecated) :
    ending r.name ∈ [['f', 'd', 'c'], ['f', 'd', 'p'], ['f', 'm', 'p']] ∨
      r.name ∈ ["lchoose", "lmultiply", "gp_exp_quad_cov", "abs"] := by
  rcases replacement_cases h with ⟨f, -, rfl⟩ | ⟨-, h | h⟩
  · left
    rw [ending_append (by cases f.support <;> decide)]
    cases f.support <;> decide
  · left
    rw [h]
    decide
  · exact Or.inr h

/-- A replacement is not deprecated, and it is neither of the two calls. -/
theorem replacement_ne {families : Catalog} {old : String} {r : Replacement}
    (h : (old, r) ∈ families.deprecated) :
    r.name ≠ "if_else" ∧ r.name ≠ "get_lp" ∧ ∀ r', (r.name, r') ∉ families.deprecated := by
  have hnew := ending_replacement h
  generalize r.name = new at hnew
  refine ⟨?_, ?_, ?_⟩
  · rintro rfl
    revert hnew
    decide
  · rintro rfl
    revert hnew
    decide
  · intro r' hold
    rcases ending_deprecated hold with hold | rfl | rfl
    · rcases hnew with hnew | hnew
      · rw [hold] at hnew
        revert hnew
        decide
      · have hfixed : ∀ new ∈ ["lchoose", "lmultiply", "gp_exp_quad_cov", "abs"],
            ending new ≠ ['g', 'o', 'l'] := by
          decide
        exact hfixed new hnew hold
    all_goals
      revert hnew
      decide

/-! ## The table -/

/-- What is found for a name is one of its entries. -/
theorem mem_of_lookup_reverse {entries : List (String × Replacement)} {name : String}
    {r : Replacement} (h : entries.reverse.lookup name = some r) : (name, r) ∈ entries := by
  obtain ⟨front, back, hsplit, -⟩ := List.lookup_eq_some_iff.mp h
  rw [← List.mem_reverse, hsplit]
  exact List.mem_append_right _ List.mem_cons_self

theorem getElem?_foldl_insert (entries : List (String × Replacement))
    (found : Std.TreeMap String Replacement) (name : String) :
    (entries.foldl (fun found entry => found.insert entry.1 entry.2) found)[name]? =
      (entries.reverse.lookup name).or found[name]? := by
  induction entries generalizing found with
  | nil => rfl
  | cons entry entries ih =>
    obtain ⟨key, replacement⟩ := entry
    rw [List.foldl_cons, ih, List.reverse_cons, List.lookup_append, Option.or_assoc,
      Std.TreeMap.getElem?_insert, List.lookup_cons]
    congr 1
    by_cases h : key = name
    · simp [h]
    · have hne : (name == key) = false := beq_eq_false_iff_ne.mpr fun h' => h h'.symm
      simp [h, hne]

namespace DeprecationTable

/-- Of the entries for a name the last one counts. -/
theorem getElem?_ofCatalog (families : Catalog) (name : String) :
    (ofCatalog families).replacements[name]? = families.deprecated.reverse.lookup name := by
  rw [ofCatalog, getElem?_foldl_insert, Std.TreeMap.getElem?_emptyc, Option.or_none]

theorem mem_of_getElem? {families : Catalog} {name : String} {r : Replacement}
    (h : (ofCatalog families).replacements[name]? = some r) : (name, r) ∈ families.deprecated := by
  rw [getElem?_ofCatalog] at h
  exact mem_of_lookup_reverse h

/-- A call is replaced by an entry for its name, and only if the library provides the function. -/
theorem rename?_eq_some {families : Catalog} {kind newKind : CallKind} {name newName : String}
    (h : (ofCatalog families).rename? kind name = some (newKind, newName)) :
    kind.isLibrary ∧ ∃ r, (name, r) ∈ families.deprecated ∧ newName = r.name ∧
      newKind = if r.conditional then .conditional .library else kind := by
  simp only [rename?, Option.ite_none_right_eq_some, Option.map_eq_some_iff, Prod.mk.injEq] at h
  obtain ⟨hkind, r, hr, rfl, rfl⟩ := h
  exact ⟨hkind, r, mem_of_getElem? hr, rfl, rfl⟩

/-- The table has no entry for a name that is not among the entries of the catalog. -/
theorem rename?_eq_none {families : Catalog} {name : String}
    (h : ∀ r, (name, r) ∉ families.deprecated) (kind : CallKind) :
    (ofCatalog families).rename? kind name = none := by
  cases hrename : (ofCatalog families).rename? kind name with
  | none => rfl
  | some call =>
    obtain ⟨-, r, hr, -⟩ := rename?_eq_some hrename
    exact absurd hr (h r)

/-- A replacement is not replaced again. -/
theorem rename?_replaced {families : Catalog} {kind newKind : CallKind} {name newName : String}
    (h : (ofCatalog families).rename? kind name = some (newKind, newName)) (kind' : CallKind) :
    (ofCatalog families).rename? kind' newName = none := by
  obtain ⟨-, r, hr, rfl, -⟩ := rename?_eq_some h
  exact rename?_eq_none (replacement_ne hr).2.2 kind'

/-- A replacement has another name. -/
theorem rename?_ne {families : Catalog} {kind newKind : CallKind} {name newName : String}
    (h : (ofCatalog families).rename? kind name = some (newKind, newName)) : newName ≠ name := by
  rintro rfl
  have hagain := rename?_replaced h kind
  rw [h] at hagain
  cases hagain

/-- A replacement is neither of the two calls that are replaced by something else. -/
theorem replaced_ne {families : Catalog} {kind newKind : CallKind} {name newName : String}
    (h : (ofCatalog families).rename? kind name = some (newKind, newName)) :
    newName ≠ "if_else" ∧ newName ≠ "get_lp" := by
  obtain ⟨-, r, hr, rfl, -⟩ := rename?_eq_some h
  exact ⟨(replacement_ne hr).1, (replacement_ne hr).2.1⟩

/-- The choice is replaced by something else and not renamed. -/
theorem rename?_if_else (families : Catalog) (kind : CallKind) :
    (ofCatalog families).rename? kind "if_else" = none :=
  rename?_eq_none (fun _ h => (deprecated_ne h).1 rfl) kind

end DeprecationTable

end ModelForm
