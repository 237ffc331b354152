import ModelForm.Proofs.NothingDeprecated

/-!
# The table of a catalog

A table is made by entering the fixed names first and then the old spellings of each family, in the
order of the catalog. Names are put together from parts, so families with different names may give
rise to the same old name, as `normal_cdf` and `normal` do, and a family may give rise to a fixed
one. Of several entries the last one counts.

`Catalog.Renames` says which call takes the place of another without mentioning the table: the last
family decides that the name is an old spelling of, and a fixed entry counts where there is none.

* `DeprecationTable.rename?_eq_some_iff` — the table answers so.
* `Catalog.renames_iff_of_unambiguous` — where no two families share an old name, their order does
  not matter.
* `DeprecationTable.ofCatalog_derived` — the whole of it, with the size of the table.
-/

namespace ModelForm

/-! ## What a catalog says -/

namespace Family

/-- The name is an old spelling of a function that the family provides. -/
def Spells (f : Family) (name : String) : Prop :=
  (f.provides .density ∧ name = f.name ++ "_log") ∨
    (f.provides .lcdf ∧ name = f.name ++ "_cdf_log") ∨
    (f.provides .lccdf ∧ name = f.name ++ "_ccdf_log")

/-- What a family makes of a library call under an old spelling. A density is applied conditionally,
and for the other functions the kind of the call stays. -/
inductive Renames (f : Family) (kind : CallKind) (name : String) : CallKind × String → Prop
  | density (provided : f.provides .density) (spelled : name = f.name ++ "_log") :
      Renames f kind name (.conditional .library, f.name ++ f.support.suffix.text)
  | lcdf (provided : f.provides .lcdf) (spelled : name = f.name ++ "_cdf_log") :
      Renames f kind name (kind, f.name ++ "_lcdf")
  | lccdf (provided : f.provides .lccdf) (spelled : name = f.name ++ "_ccdf_log") :
      Renames f kind name (kind, f.name ++ "_lccdf")

end Family

namespace Catalog

/-- The name is a fixed one or an old spelling of some family. -/
def Generates (families : Catalog) (name : String) : Prop :=
  (∃ r, (name, r) ∈ renamedFunctions) ∨ ∃ f ∈ families, f.Spells name

/-- What a catalog makes of a library call. -/
inductive Renames (families : Catalog) (kind : CallKind) (name : String) : CallKind × String → Prop
  /-- The last family decides that has the name for an old spelling. -/
  | family (before after : Catalog) (f : Family) (answer : CallKind × String)
      (split : families = before ++ f :: after) (last : ∀ g ∈ after, ¬ g.Spells name)
      (renames : f.Renames kind name answer) : Renames families kind name answer
  /-- A fixed entry counts where no family has. -/
  | fixed (r : Replacement) (entry : (name, r) ∈ renamedFunctions)
      (unspelled : ∀ f ∈ families, ¬ f.Spells name) : Renames families kind name (kind, r.name)

end Catalog

/-! ## Entries -/

/-- The call that an entry puts in place of a library call. -/
def Replacement.answer (r : Replacement) (kind : CallKind) : CallKind × String :=
  (if r.conditional then .conditional .library else kind, r.name)

namespace Family

variable {f : Family} {kind : CallKind} {name : String}

theorem spells_iff : f.Spells name ↔ ∃ r, (name, r) ∈ f.oldSpellings := by
  simp only [Spells, mem_oldSpellings, exists_or, exists_and_left, exists_eq, and_true]

theorem renames_iff {answer : CallKind × String} :
    f.Renames kind name answer ↔ ∃ r, (name, r) ∈ f.oldSpellings ∧ r.answer kind = answer := by
  constructor
  · intro h
    cases h with
    | density provided spelled =>
      exact ⟨_, mem_oldSpellings.mpr (Or.inl ⟨provided, spelled, rfl⟩), rfl⟩
    | lcdf provided spelled =>
      exact ⟨_, mem_oldSpellings.mpr (Or.inr (Or.inl ⟨provided, spelled, rfl⟩)), rfl⟩
    | lccdf provided spelled =>
      exact ⟨_, mem_oldSpellings.mpr (Or.inr (Or.inr ⟨provided, spelled, rfl⟩)), rfl⟩
  · rintro ⟨r, hr, rfl⟩
    obtain ⟨provided, spelled, rfl⟩ | ⟨provided, spelled, rfl⟩ | ⟨provided, spelled, rfl⟩ :=
      mem_oldSpellings.mp hr
    · exact .density provided spelled
    · exact .lcdf provided spelled
    · exact .lccdf provided spelled

theorem Renames.spells {answer : CallKind × String} (h : f.Renames kind name answer) :
    f.Spells name := by
  obtain ⟨r, hr, -⟩ := renames_iff.mp h
  exact spells_iff.mpr ⟨r, hr⟩

/-- The three old spellings of a family are told apart by what follows its name. -/
theorem oldSpellings_unique {r r' : Replacement} (h : (name, r) ∈ f.oldSpellings)
    (h' : (name, r') ∈ f.oldSpellings) : r = r' := by
  have hne : f.name ++ "_log" ≠ f.name ++ "_cdf_log" ∧ f.name ++ "_log" ≠ f.name ++ "_ccdf_log" ∧
      f.name ++ "_cdf_log" ≠ f.name ++ "_ccdf_log" := by
    simp only [ne_eq, String.append_right_inj]
    decide
  rw [mem_oldSpellings] at h h'
  grind

theorem Renames.unique {answer answer' : CallKind × String} (h : f.Renames kind name answer)
    (h' : f.Renames kind name answer') : answer = answer' := by
  obtain ⟨r, hr, rfl⟩ := renames_iff.mp h
  obtain ⟨r', hr', rfl⟩ := renames_iff.mp h'
  rw [oldSpellings_unique hr hr']

end Family

theorem renamedFunctions_unique {name : String} {r r' : Replacement}
    (h : (name, r) ∈ renamedFunctions) (h' : (name, r') ∈ renamedFunctions) : r = r' := by
  have hunique : ∀ entry ∈ renamedFunctions, ∀ entry' ∈ renamedFunctions,
      entry.1 = entry'.1 → entry.2 = entry'.2 := by
    decide
  exact hunique _ h _ h' rfl

/-- The fixed entries do not ask for another kind. -/
theorem answer_of_mem_renamedFunctions {name : String} {r : Replacement}
    (h : (name, r) ∈ renamedFunctions) (kind : CallKind) : r.answer kind = (kind, r.name) := by
  have hplain : ∀ entry ∈ renamedFunctions, entry.2.conditional = false := by decide
  rw [Replacement.answer, hplain _ h]
  rfl

/-! ## Looking up -/

/-- Where a name has one entry it does not matter from which end entries are looked at. -/
theorem lookup_reverse_eq_some_iff {entries : List (String × Replacement)} {name : String}
    (unique : ∀ r r', (name, r) ∈ entries → (name, r') ∈ entries → r = r') {r : Replacement} :
    entries.reverse.lookup name = some r ↔ (name, r) ∈ entries := by
  refine ⟨mem_of_lookup_reverse, ?_⟩
  intro h
  cases hlookup : entries.reverse.lookup name with
  | none =>
    have habsent := List.lookup_eq_none_iff.mp hlookup (name, r) (List.mem_reverse.mpr h)
    simp at habsent
  | some r' => rw [unique r r' h (mem_of_lookup_reverse hlookup)]

theorem lookup_flatMap {γ : Type} (g : γ → List (String × Replacement)) (cs : List γ)
    (name : String) : (cs.flatMap g).lookup name = cs.findSome? fun c => (g c).lookup name := by
  induction cs with
  | nil => rfl
  | cons c cs ih =>
    rw [List.flatMap_cons, List.lookup_append, ih, List.findSome?_cons]
    cases (g c).lookup name <;> rfl

theorem Family.lookup_oldSpellings_eq_none_iff {f : Family} {name : String} :
    f.oldSpellings.reverse.lookup name = none ↔ ¬ f.Spells name := by
  rw [spells_iff, not_exists, Option.eq_none_iff_forall_ne_some]
  exact forall_congr' fun r =>
    not_congr (lookup_reverse_eq_some_iff fun _ _ => oldSpellings_unique)

namespace Catalog

variable {families : Catalog} {name : String}

/-- The entry of the last family that has the name for an old spelling. -/
def lastSpelled? (families : Catalog) (name : String) : Option Replacement :=
  families.reverse.findSome? fun f => f.oldSpellings.reverse.lookup name

theorem lastSpelled?_eq_none_iff :
    families.lastSpelled? name = none ↔ ∀ f ∈ families, ¬ f.Spells name := by
  simp only [lastSpelled?, List.findSome?_eq_none_iff, List.mem_reverse,
    Family.lookup_oldSpellings_eq_none_iff]

theorem lastSpelled?_eq_some_iff {r : Replacement} :
    families.lastSpelled? name = some r ↔ ∃ before f after, families = before ++ f :: after ∧
      (name, r) ∈ f.oldSpellings ∧ ∀ g ∈ after, ¬ g.Spells name := by
  simp only [lastSpelled?, List.findSome?_eq_some_iff, Family.lookup_oldSpellings_eq_none_iff,
    lookup_reverse_eq_some_iff fun _ _ => Family.oldSpellings_unique]
  constructor
  · rintro ⟨later, f, earlier, hsplit, hr, hlast⟩
    refine ⟨earlier.reverse, f, later.reverse, ?_, hr, ?_⟩
    · rw [← List.reverse_reverse families, hsplit]
      simp
    · exact fun g hg => hlast g (List.mem_reverse.mp hg)
  · rintro ⟨before, f, after, rfl, hr, hlast⟩
    refine ⟨after.reverse, f, before.reverse, by simp, hr, ?_⟩
    exact fun g hg => hlast g (List.mem_reverse.mp hg)

end Catalog

namespace DeprecationTable

variable {families : Catalog} {kind : CallKind} {name : String}

/-- Families come after the fixed entries, so that they are found first. -/
theorem getElem?_ofCatalog_eq_or (families : Catalog) (name : String) :
    (ofCatalog families).replacements[name]? =
      (families.lastSpelled? name).or (renamedFunctions.reverse.lookup name) := by
  rw [getElem?_ofCatalog, Catalog.deprecated, List.reverse_append, List.lookup_append,
    List.reverse_flatMap, lookup_flatMap]
  rfl

/-- The table answers as the catalog says. -/
theorem rename?_eq_some_iff (hlibrary : kind.isLibrary) {answer : CallKind × String} :
    (ofCatalog families).rename? kind name = some answer ↔ families.Renames kind name answer := by
  have hentry : (ofCatalog families).rename? kind name = some answer ↔
      ∃ r, (ofCatalog families).replacements[name]? = some r ∧ r.answer kind = answer := by
    rw [rename?, if_pos hlibrary, Option.map_eq_some_iff]
    rfl
  simp only [hentry, getElem?_ofCatalog_eq_or, Option.or_eq_some_iff,
    Catalog.lastSpelled?_eq_some_iff, Catalog.lastSpelled?_eq_none_iff,
    lookup_reverse_eq_some_iff fun _ _ => renamedFunctions_unique]
  constructor
  · rintro ⟨r, ⟨before, f, after, hsplit, hr, hlast⟩ | ⟨hnone, hr⟩, rfl⟩
    · exact .family before after f _ hsplit hlast (Family.renames_iff.mpr ⟨r, hr, rfl⟩)
    · rw [answer_of_mem_renamedFunctions hr]
      exact .fixed r hr hnone
  · intro h
    cases h with
    | family before after f _ split last renames =>
      obtain ⟨r, hr, hanswer⟩ := Family.renames_iff.mp renames
      exact ⟨r, Or.inl ⟨before, f, after, split, hr, last⟩, hanswer⟩
    | fixed r entry unspelled =>
      exact ⟨r, Or.inr ⟨unspelled, entry⟩, answer_of_mem_renamedFunctions entry kind⟩

/-- The deprecated names are those that the catalog gives rise to. -/
theorem deprecates_ofCatalog_iff :
    (ofCatalog families).Deprecates name ↔ families.Generates name := by
  have hfixed : (∃ r, renamedFunctions.reverse.lookup name = some r) ↔
      ∃ r, (name, r) ∈ renamedFunctions :=
    exists_congr fun r => lookup_reverse_eq_some_iff fun _ _ => renamedFunctions_unique
  rw [deprecates_iff, ← Option.isSome_iff_exists, getElem?_ofCatalog_eq_or, Option.isSome_or,
    Bool.or_eq_true, or_comm, Catalog.Generates, ← hfixed, Option.isSome_iff_exists]
  refine or_congr_right ?_
  rw [← Option.ne_none_iff_isSome, ne_eq, Catalog.lastSpelled?_eq_none_iff]
  simp

/-- The table has as many entries as there are such names. -/
theorem exists_names_size (families : Catalog) :
    ∃ names : List String, names.Nodup ∧ names.length = (ofCatalog families).size ∧
      ∀ name, name ∈ names ↔ families.Generates name := by
  refine ⟨(ofCatalog families).replacements.keys, Std.TreeMap.nodup_keys,
    Std.TreeMap.length_keys, ?_⟩
  intro name
  rw [Std.TreeMap.mem_keys]
  exact deprecates_ofCatalog_iff

end DeprecationTable

/-! ## Order -/

namespace Catalog

variable {families : Catalog} {kind : CallKind} {name : String}

/-- No two families have the same name for an old spelling. -/
def Unambiguous (families : Catalog) : Prop :=
  ∀ f ∈ families, ∀ g ∈ families, ∀ name, f.Spells name → g.Spells name → f = g

/-- Where no two families share an old spelling, it is enough that some family has it. -/
theorem renames_iff_of_unambiguous (h : families.Unambiguous) {answer : CallKind × String} :
    families.Renames kind name answer ↔ (∃ f ∈ families, f.Renames kind name answer) ∨
      (∀ f ∈ families, ¬ f.Spells name) ∧
        ∃ r, (name, r) ∈ renamedFunctions ∧ (kind, r.name) = answer := by
  constructor
  · intro hanswer
    cases hanswer with
    | family before after f _ split last renames =>
      refine Or.inl ⟨f, ?_, renames⟩
      rw [split]
      exact List.mem_append_right before List.mem_cons_self
    | fixed r entry unspelled => exact Or.inr ⟨unspelled, r, entry, rfl⟩
  · rintro (⟨f, hf, renames⟩ | ⟨unspelled, r, entry, rfl⟩)
    · -- the last family with this spelling is the only one
      cases hlast : families.lastSpelled? name with
      | none => exact absurd renames.spells (lastSpelled?_eq_none_iff.mp hlast f hf)
      | some r =>
        obtain ⟨before, g, after, rfl, hr, last⟩ := lastSpelled?_eq_some_iff.mp hlast
        have hg : g ∈ before ++ g :: after := List.mem_append_right before List.mem_cons_self
        obtain rfl := h f hf g hg name renames.spells (Family.spells_iff.mpr ⟨r, hr⟩)
        exact .family before after f answer rfl last renames
    · exact .fixed r entry unspelled

theorem Unambiguous.perm {permuted : Catalog} (h : families.Unambiguous)
    (hperm : permuted.Perm families) : permuted.Unambiguous :=
  fun f hf g hg => h f (hperm.mem_iff.mp hf) g (hperm.mem_iff.mp hg)

theorem Unambiguous.renames_perm {permuted : Catalog} (h : families.Unambiguous)
    (hperm : permuted.Perm families) {answer : CallKind × String} :
    permuted.Renames kind name answer ↔ families.Renames kind name answer := by
  simp only [renames_iff_of_unambiguous h, renames_iff_of_unambiguous (h.perm hperm),
    hperm.mem_iff]

end Catalog

namespace DeprecationTable

/-- Whatever a table says about deprecated names it says because of the catalog. -/
structure Derived (families : Catalog) (table : DeprecationTable) : Prop where
  /-- A library call is renamed exactly if its name is a fixed one or an old spelling. -/
  isSome_iff : ∀ kind name, kind.isLibrary →
    ((table.rename? kind name).isSome ↔ families.Generates name)
  /-- The last family with the old spelling decides, and a fixed entry where there is none. -/
  eq_some_iff : ∀ kind name answer, kind.isLibrary →
    (table.rename? kind name = some answer ↔ families.Renames kind name answer)
  /-- Each of these names is counted once. -/
  size_eq : ∃ names : List String, names.Nodup ∧ names.length = table.size ∧
    ∀ name, name ∈ names ↔ families.Generates name

/-- The table of any catalog renames what the catalog gives rise to, and the last family decides. As
long as no two families share an old spelling, their order does not matter. They may share one with
the fixed entries, since these come before all families. -/
theorem ofCatalog_derived (families : Catalog) :
    Derived families (ofCatalog families) ∧
      (families.Unambiguous → ∀ permuted : Catalog, permuted.Perm families → ∀ kind name,
        (ofCatalog permuted).rename? kind name = (ofCatalog families).rename? kind name) := by
  refine ⟨⟨?_, ?_, exists_names_size families⟩, ?_⟩
  · intro kind name hlibrary
    rw [isSome_rename?_iff, deprecates_ofCatalog_iff]
    exact and_iff_right hlibrary
  · exact fun _ _ _ hlibrary => rename?_eq_some_iff hlibrary
  · intro h permuted hperm kind name
    cases hlibrary : kind.isLibrary with
    | false => simp [rename?, hlibrary]
    | true =>
      apply Option.ext
      intro answer
      rw [rename?_eq_some_iff hlibrary, rename?_eq_some_iff hlibrary]
      exact h.renames_perm hperm

/-- Two families that share an old spelling, and one that has a fixed name for an old spelling. -/
def sharedSpellings : Catalog :=
  [⟨"normal_cdf", .discrete, [.density]⟩, ⟨"normal", .continuous, [.lcdf]⟩,
    ⟨"multiply", .continuous, [.density]⟩]

def ownSpellings : Catalog :=
  [⟨"normal", .continuous, [.density]⟩, ⟨"poisson", .discrete, [.density]⟩]

theorem ofCatalog_derived_spellings :
    ((ofCatalog sharedSpellings).rename? .library "normal_cdf_log" =
        some (.library, "normal_lcdf") ∧
      (ofCatalog sharedSpellings).rename? .library "multiply_log" =
        some (.conditional .library, "multiply_lpdf") ∧
      (ofCatalog sharedSpellings).rename? .library "fabs" = some (.library, "abs")) ∧
      ownSpellings.Unambiguous ∧ ∀ kind name,
        (ofCatalog ownSpellings.reverse).rename? kind name =
          (ofCatalog ownSpellings).rename? kind name := by
  have hderived := (ofCatalog_derived sharedSpellings).1
  have hown : ownSpellings.Unambiguous := by
    simp [Catalog.Unambiguous, ownSpellings, Family.Spells, Family.provides]
  refine ⟨⟨?_, ?_, ?_⟩, hown, ?_⟩
  · rw [hderived.eq_some_iff _ _ _ rfl]
    refine .family [⟨"normal_cdf", .discrete, [.density]⟩]
      [⟨"multiply", .continuous, [.density]⟩] ⟨"normal", .continuous, [.lcdf]⟩ _ rfl ?_
      (.lcdf rfl rfl)
    simp [Family.Spells, Family.provides]
  · rw [hderived.eq_some_iff _ _ _ rfl]
    exact .family [⟨"normal_cdf", .discrete, [.density]⟩, ⟨"normal", .continuous, [.lcdf]⟩] []
      ⟨"multiply", .continuous, [.density]⟩ _ rfl (List.forall_mem_nil _) (.density rfl rfl)
  · rw [hderived.eq_some_iff _ _ _ rfl]
    refine .fixed ⟨"abs", false⟩ (by decide) ?_
    simp [sharedSpellings, Family.Spells, Family.provides]
  · exact (ofCatalog_derived ownSpellings).2 hown _ (List.reverse_perm _)

end DeprecationTable

end ModelForm
