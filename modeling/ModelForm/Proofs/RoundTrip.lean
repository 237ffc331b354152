import ModelForm.Proofs.Mapping
import ModelForm.Stored.Expr
import ModelForm.Stored.Stmt

/-!
# Stored values are recovered

Whatever is stored is read back as it was: `LawfulStored` says so for the values of one type, and
the instances build it up from texts and numbers to programs. Nothing is left out, so places and
labels come back too, though trees are compared without them.

Two things need an argument.

* What is missing is stored as `null`, so what is not missing must never be stored as that
  (`NeverNull`).
* Types, trees and statements are read with a bound on the depth. A stored value is always deeper
  than the stored values in it (`Node.depth_lt_of_mem`), so the depth of the data is enough.
-/

namespace ModelForm

/-! ## Depth of data -/

namespace Datum

/-- No data has depth zero, so a bound on a depth leaves one for what is inside. -/
theorem exists_of_depth_le {d : Datum} {bound : Nat} (h : d.depth ≤ bound) :
    ∃ rest, bound = rest + 1 := by
  have hpos : 1 ≤ d.depth := by
    cases d <;> simp [depth]
  exact Nat.exists_eq_add_one.mpr (Nat.le_trans hpos h)

theorem depth_le_depthList {d : Datum} {items : List Datum} (h : d ∈ items) :
    d.depth ≤ depthList items := by
  induction items with
  | nil => cases h
  | cons item items ih =>
    rw [depthList]
    rcases List.mem_cons.mp h with rfl | h
    · exact Nat.le_max_left _ _
    · exact Nat.le_trans (ih h) (Nat.le_max_right _ _)

theorem depth_lt_of_mem {d : Datum} {items : List Datum} (h : d ∈ items) :
    d.depth < (list items).depth := by
  rw [depth]
  exact Nat.lt_succ_of_le (depth_le_depthList h)

theorem depth_le_depthFields {name : String} {d : Datum} {fields : List (String × Datum)}
    (h : (name, d) ∈ fields) : d.depth ≤ depthFields fields := by
  induction fields with
  | nil => cases h
  | cons first fields ih =>
    rw [depthFields]
    rcases List.mem_cons.mp h with rfl | h
    · exact Nat.le_max_left _ _
    · exact Nat.le_trans (ih h) (Nat.le_max_right _ _)

theorem depth_lt_tagged (name : String) (part : Datum) : part.depth < (tagged name part).depth := by
  simp [tagged, depth, depthFields]

theorem depth_lt_of_mem_parts {name : String} {d : Datum} {parts : List Datum} (h : d ∈ parts) :
    d.depth < (taggedList name parts).depth :=
  Nat.lt_trans (depth_lt_of_mem h) (depth_lt_tagged name _)

theorem depth_lt_of_mem_fields {name field : String} {d : Datum} {fields : List (String × Datum)}
    (h : (field, d) ∈ fields) : d.depth < (tagged name (record fields)).depth := by
  refine Nat.lt_trans ?_ (depth_lt_tagged name _)
  rw [depth]
  exact Nat.lt_succ_of_le (depth_le_depthFields h)

end Datum

/-! ## Laws of storing -/

/-- What is stored is read back as it was. -/
class LawfulStored (α : Type) [Stored α] : Prop where
  ofDatum?_toDatum (a : α) : ofDatum? (toDatum a) = some a

attribute [simp] LawfulStored.ofDatum?_toDatum

/-- No value is stored as what is missing is. -/
class NeverNull (α : Type) [Stored α] : Prop where
  toDatum_ne_null (a : α) : toDatum a ≠ .null

/-- A list is read back if each of its items is. -/
theorem mapM_map_eq_some {γ δ : Type} {write : γ → δ} {read? : δ → Option γ} {items : List γ}
    (h : ∀ c ∈ items, read? (write c) = some c) : (items.map write).mapM read? = some items := by
  induction items with
  | nil => rfl
  | cons c items ih =>
    rw [List.map_cons, List.mapM_cons, h c List.mem_cons_self,
      ih fun d hd => h d (List.mem_cons_of_mem c hd)]
    rfl

section Containers

variable {γ : Type} [Stored γ]

instance [LawfulStored γ] : LawfulStored (List γ) where
  ofDatum?_toDatum _ := mapM_map_eq_some fun c _ => LawfulStored.ofDatum?_toDatum c

/-- What is not `null` is read as something that is not missing. -/
theorem ofDatum?_of_ne_null {d : Datum} (h : d ≠ .null) :
    (ofDatum? d : Option (Option γ)) = (ofDatum? d).map some := by
  cases d with
  | null => exact absurd rfl h
  | _ => rfl

instance [LawfulStored γ] [NeverNull γ] : LawfulStored (Option γ) where
  ofDatum?_toDatum
    | none => rfl
    | some a => by
      show ofDatum? (toDatum a) = some (some a)
      rw [ofDatum?_of_ne_null (NeverNull.toDatum_ne_null a), LawfulStored.ofDatum?_toDatum,
        Option.map_some]

end Containers

instance : LawfulStored String := ⟨fun _ => rfl⟩

instance : LawfulStored UInt32 where
  ofDatum?_toDatum n := by
    have hbound : (n.toNat : Int) < UInt32.size := Int.ofNat_lt.mpr n.toNat_lt_size
    show (if 0 ≤ (n.toNat : Int) ∧ (n.toNat : Int) < UInt32.size then
      some (UInt32.ofNat (n.toNat : Int).toNat) else none) = some n
    rw [if_pos ⟨Int.natCast_nonneg _, hbound⟩, Int.toNat_natCast, UInt32.ofNat_toNat]

instance : LawfulStored AdLevel := ⟨fun level => by cases level <;> rfl⟩

instance : LawfulStored Origin := ⟨fun origin => by cases origin <;> rfl⟩

instance : LawfulStored LiteralKind := ⟨fun kind => by cases kind <;> rfl⟩

instance : LawfulStored Operator := ⟨fun op => by cases op <;> rfl⟩

instance : LawfulStored CallKind where
  ofDatum?_toDatum kind := by
    cases kind with
    | conditional origin => cases origin <;> rfl
    | _ => rfl

/-! ## Types -/

theorem ValueType.readWithin_write (t : ValueType) (layers : Nat) (h : t.write.depth ≤ layers) :
    readWithin layers t.write = some t := by
  induction t generalizing layers with
  | array element ih =>
    obtain ⟨rest, rfl⟩ := Datum.exists_of_depth_le h
    have hlt : element.write.depth < element.array.write.depth := Datum.depth_lt_tagged "Array" _
    show (readWithin rest element.write).map array = _
    rw [ih rest (by omega), Option.map_some]
  | _ =>
    obtain ⟨rest, rfl⟩ := Datum.exists_of_depth_le h
    rfl

instance : LawfulStored ValueType := ⟨fun t => t.readWithin_write _ (Nat.le_refl _)⟩

/-! ## Annotations -/

instance : LawfulStored Untyped := ⟨fun _ => rfl⟩

instance : LawfulStored Span where
  ofDatum?_toDatum span := by
    -- the fields are found by their names, whatever stands under them
    have hread : ∀ start stop : Datum,
        (ofDatum? (.record [("start", start), ("end", stop)]) : Option Span) =
          (do return ⟨← ofDatum? start, ← ofDatum? stop⟩) := fun _ _ => rfl
    exact (hread _ _).trans (by simp)

instance : LawfulStored Typed where
  ofDatum?_toDatum note := by
    have hread : ∀ type level span : Datum,
        (ofDatum? (.record [("ty", type), ("adlevel", level), ("span", span)]) : Option Typed) =
          (do return ⟨← ofDatum? type, ← ofDatum? level, ← ofDatum? span⟩) := fun _ _ _ => rfl
    exact (hread _ _ _).trans (by simp)

instance : LawfulStored Labelled where
  ofDatum?_toDatum note := by
    have hread : ∀ type level span label : Datum,
        (ofDatum? (.record [("ty", type), ("adlevel", level), ("span", span), ("label", label)]) :
            Option Labelled) =
          (do return ⟨⟨← ofDatum? type, ← ofDatum? level, ← ofDatum? span⟩, ← ofDatum? label⟩) :=
      fun _ _ _ _ => rfl
    exact (hread _ _ _ _).trans (by simp)

/-! ## Nodes -/

namespace Index

theorem read?_write (i : Index Datum) : read? i.write = some i := by
  cases i <;> rfl

theorem depth_lt_of_mem {i : Index Datum} {d : Datum} (h : d ∈ i.children) :
    d.depth < i.write.depth := by
  cases i with
  | all => cases h
  | between lower upper => exact Datum.depth_lt_of_mem_parts h
  | _ =>
    obtain rfl := List.mem_singleton.mp h
    exact Datum.depth_lt_tagged _ _

end Index

namespace Node

theorem read?_write (n : Node Datum) : read? n.write = some n := by
  cases n with
  | literal kind text =>
    show (do return Node.literal (← ofDatum? (toDatum kind)) text) = _
    simp
  | call kind name args =>
    show (do return Node.call (← ofDatum? (toDatum kind)) name args) = _
    simp
  | indexed base indices =>
    show (do return Node.indexed base (← (indices.map Index.write).mapM Index.read?)) = _
    rw [mapM_map_eq_some fun i _ => i.read?_write]
    rfl
  | _ => rfl

/-- What is stored of a node is deeper than what is stored of its children. -/
theorem depth_lt_of_mem {n : Node Datum} {d : Datum} (h : d ∈ n.children) :
    d.depth < n.write.depth := by
  cases n with
  | var | literal => cases h
  | call kind name args =>
    have hargs : (Datum.list args).depth < (write (.call kind name args)).depth :=
      Datum.depth_lt_of_mem_parts (by simp)
    exact Nat.lt_trans (Datum.depth_lt_of_mem h) hargs
  | indexed base indices =>
    rcases List.mem_cons.mp h with rfl | h
    · exact Datum.depth_lt_of_mem_parts (by simp)
    · obtain ⟨i, hi, hd⟩ := List.mem_flatMap.mp h
      have hindices : (Datum.list (indices.map Index.write)).depth <
          (write (.indexed base indices)).depth :=
        Datum.depth_lt_of_mem_parts (by simp)
      calc d.depth < i.write.depth := Index.depth_lt_of_mem hd
        _ < (Datum.list (indices.map Index.write)).depth :=
          Datum.depth_lt_of_mem (List.mem_map_of_mem hi)
        _ < _ := hindices
  | paren inner =>
    obtain rfl := List.mem_singleton.mp h
    exact Datum.depth_lt_tagged _ _
  | _ => exact Datum.depth_lt_of_mem_parts h

end Node

/-! ## Trees -/

namespace Expr

variable {α : Type} [Stored α]

theorem write_eq (e : Expr α) : e.write = .list [toDatum e.note, (e.node.map write).write] := by
  rw [write, fold_eq]
  rfl

instance : NeverNull (Expr α) where
  toDatum_ne_null e := by
    show e.write ≠ _
    rw [write_eq]
    exact nofun

theorem depth_lt_of_mem {c e : Expr α} (h : c ∈ e.node.children) :
    c.write.depth < e.write.depth := by
  have hchild : c.write ∈ (e.node.map write).children := by
    rw [Node.children_map]
    exact List.mem_map_of_mem h
  rw [write_eq e]
  exact Nat.lt_trans (Node.depth_lt_of_mem hchild) (Datum.depth_lt_of_mem (by simp))

theorem readWithin_write [LawfulStored α] (e : Expr α) (depth : Nat) (h : e.write.depth ≤ depth) :
    readWithin depth e.write = some e := by
  induction e using induct generalizing depth with
  | step e ih =>
    obtain ⟨rest, rfl⟩ := Datum.exists_of_depth_le h
    -- what is left of the bound is enough for the children, which are less deep
    have hchildren : ∀ c ∈ e.node.children, (readWithin rest ∘ write) c = pure (id c) := by
      intro c hc
      have hlt := depth_lt_of_mem hc
      exact ih c hc rest (by omega)
    have htraverse : (e.node.map write).traverse (readWithin rest) = some e.node := by
      rw [Node.traverse_map, Node.traverse_congr hchildren, Node.traverse_pure, Node.map_id]
      rfl
    rw [write_eq, readWithin, LawfulStored.ofDatum?_toDatum, Node.read?_write]
    show (do return (⟨e.note, ← (e.node.map write).traverse (readWithin rest)⟩ : Expr α)) = _
    rw [htraverse]
    cases e
    rfl

instance [LawfulStored α] : LawfulStored (Expr α) :=
  ⟨fun e => e.readWithin_write _ (Nat.le_refl _)⟩

end Expr

/-! ## Statements -/

instance : LawfulStored AssignOp where
  ofDatum?_toDatum op := by
    cases op with
    | compound op =>
      show (ofDatum? (toDatum op)).map AssignOp.compound = _
      simp
    | _ => rfl

section Statements

variable {ε : Type} [Stored ε]

instance [LawfulStored ε] : LawfulStored (Truncation ε) where
  ofDatum?_toDatum t := by
    cases t with
    | unbounded => rfl
    | lower bound =>
      show (ofDatum? (toDatum bound)).map Truncation.lower = _
      simp
    | upper bound =>
      show (ofDatum? (toDatum bound)).map Truncation.upper = _
      simp
    | both low high =>
      show (do return Truncation.both (← ofDatum? (toDatum low)) (← ofDatum? (toDatum high))) = _
      simp

namespace Stmt

theorem writeList_eq_map (ss : List (Stmt ε)) : writeList ss = ss.map write := by
  induction ss with
  | nil => rfl
  | cons s ss ih => exact congrArg (List.cons s.write) ih

theorem write_ne_null (s : Stmt ε) : s.write ≠ .null := by
  cases s <;> exact nofun

/-- Statements without inner statements are read within any bound. -/
theorem readWithin_write_of_not_compound [LawfulStored ε] [NeverNull ε] {s : Stmt ε}
    (hs : s.isCompound = false) (rest : Nat) : readWithin (rest + 1) s.write = some s := by
  cases s with
  | forLoop | whileLoop | branch | block => cases hs
  | assign target op value =>
    show (do
      return assign (← ofDatum? (toDatum target)) (← ofDatum? (toDatum op))
        (← ofDatum? (toDatum value))) = _
    simp
  | tilde outcome distribution args truncation =>
    show (do
      return tilde (← ofDatum? (toDatum outcome)) distribution (← ofDatum? (toDatum args))
        (← ofDatum? (toDatum truncation))) = _
    simp
  | targetPlus amount =>
    show (ofDatum? (toDatum amount)).map targetPlus = _
    simp
  | incrementLogProb amount =>
    show (ofDatum? (toDatum amount)).map incrementLogProb = _
    simp
  | call kind name args =>
    show (do return call (← ofDatum? (toDatum kind)) name (← ofDatum? (toDatum args))) = _
    simp
  | print args =>
    show (ofDatum? (toDatum args)).map print = _
    simp
  | reject args =>
    show (ofDatum? (toDatum args)).map reject = _
    simp
  | ret value =>
    show (ofDatum? (toDatum value)).map ret = _
    simp
  | _ => rfl

/-- What a branch does otherwise is there as soon as it is not `null`. -/
theorem readWithin_branch {test yes no : Datum} (hno : no ≠ .null) (rest : Nat) :
    (readWithin (rest + 1) (.tagged "IfThenElse" <|
        .record [("cond", test), ("then", yes), ("els", no)]) : Option (Stmt ε)) = (do
      return branch (← ofDatum? test) (← readWithin rest yes)
        (← (readWithin rest no).map some)) := by
  cases no with
  | null => exact absurd rfl hno
  | _ => rfl

/-- The depth of what is stored of a statement is enough to read it back. -/
theorem readWithin_write [LawfulStored ε] [NeverNull ε] (s : Stmt ε) (depth : Nat)
    (h : s.write.depth ≤ depth) : readWithin depth s.write = some s := by
  induction s using induct generalizing depth with
  | forLoop var lower upper body ih =>
    have hlt : body.write.depth < (forLoop var lower upper body).write.depth :=
      Datum.depth_lt_of_mem_fields (show ("body", body.write) ∈ _ by simp)
    obtain ⟨rest, rfl⟩ := Datum.exists_of_depth_le h
    have hbody := ih rest (by omega)
    show (do
      return forLoop var (← ofDatum? (toDatum lower)) (← ofDatum? (toDatum upper))
        (← readWithin rest body.write)) = _
    simp [hbody]
  | whileLoop test body ih =>
    have hlt : body.write.depth < (whileLoop test body).write.depth :=
      Datum.depth_lt_of_mem_fields (show ("body", body.write) ∈ _ by simp)
    obtain ⟨rest, rfl⟩ := Datum.exists_of_depth_le h
    have hbody := ih rest (by omega)
    show (do return whileLoop (← ofDatum? (toDatum test)) (← readWithin rest body.write)) = _
    simp [hbody]
  | branch test yes no ihyes ihno =>
    have hlt : yes.write.depth < (branch test yes no).write.depth :=
      Datum.depth_lt_of_mem_fields (show ("then", yes.write) ∈ _ by simp)
    obtain ⟨rest, rfl⟩ := Datum.exists_of_depth_le h
    have hyes := ihyes rest (by omega)
    cases no with
    | none =>
      show (do
        return branch (← ofDatum? (toDatum test)) (← readWithin rest yes.write) none) = _
      simp [hyes]
    | some no =>
      have hltno : no.write.depth < (branch test yes (some no)).write.depth :=
        Datum.depth_lt_of_mem_fields (show ("els", no.write) ∈ _ by simp [writeOption])
      have hno := ihno no rfl rest (by omega)
      exact (readWithin_branch no.write_ne_null rest).trans (by simp [hyes, hno])
  | block body ih =>
    have hlt : ∀ s ∈ body, s.write.depth < (block body).write.depth := by
      intro s hs
      have hmem : s.write ∈ writeList body := by
        rw [writeList_eq_map]
        exact List.mem_map_of_mem hs
      exact Nat.lt_trans (Datum.depth_lt_of_mem hmem) (Datum.depth_lt_tagged "Block" _)
    obtain ⟨rest, rfl⟩ := Datum.exists_of_depth_le h
    show ((writeList body).mapM (readWithin rest)).map block = _
    rw [writeList_eq_map, mapM_map_eq_some fun s hs => ih s hs rest ?_]
    · rfl
    · have := hlt s hs
      omega
  | other s hs =>
    obtain ⟨rest, rfl⟩ := Datum.exists_of_depth_le h
    exact readWithin_write_of_not_compound hs rest

end Stmt

instance [LawfulStored ε] [NeverNull ε] : LawfulStored (Stmt ε) :=
  ⟨fun s => s.readWithin_write _ (Nat.le_refl _)⟩

instance [LawfulStored ε] [NeverNull ε] : LawfulStored (Program ε) where
  ofDatum?_toDatum p := by
    have hread : ∀ statements : Datum,
        (ofDatum? (.record [("statements", statements)]) : Option (Program ε)) =
          (do return ⟨← ofDatum? statements⟩) := fun _ => rfl
    exact (hread _).trans (by simp)

end Statements

/-- Trees of every kind, and programs over them, are read back from what is stored of them, with
nothing lost or changed. -/
theorem stored_read_back :
    (∀ e : Expr Untyped, ofDatum? (toDatum e) = some e) ∧
      (∀ e : Expr Typed, ofDatum? (toDatum e) = some e) ∧
      (∀ e : Expr Labelled, ofDatum? (toDatum e) = some e) ∧
      (∀ p : Program (Expr Untyped), ofDatum? (toDatum p) = some p) ∧
      (∀ p : Program (Expr Typed), ofDatum? (toDatum p) = some p) ∧
      ∀ p : Program (Expr Labelled), ofDatum? (toDatum p) = some p := by
  refine ⟨?_, ?_, ?_, ?_, ?_, ?_⟩ <;> exact LawfulStored.ofDatum?_toDatum

end ModelForm
