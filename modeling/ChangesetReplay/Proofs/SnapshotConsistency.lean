import Mathlib.Data.List.Pairwise
import Mathlib.Tactic.Tauto
import ChangesetReplay.Proofs.StoreActions
import ChangesetReplay.State.Snapshot

/-! # Consistent snapshots

What a snapshot must be for a store to take it over, and that the validation of snapshots accepts
these and no others. -/

namespace ChangesetReplay

namespace Cell

def isList : Cell → Bool
  | scalar _ => false
  | list _ => true

def values : Cell → List Value
  | scalar v => [v]
  | list items => items

/-- A cell of the shape that a column asks for, with values that it admits. -/
structure Fits (d : ColumnDef) (c : Cell) : Prop where
  shape : c.isList = d.isList
  admitted : ∀ v ∈ c.values, d.checkElement v = .ok ()

end Cell

structure Columns.Consistent (next : UInt32) (columns : List Column) : Prop where
  key_lt : ∀ c ∈ columns, c.key.index < next
  keys_nodup : (columns.map (·.key)).Nodup
  names_nodup : (columns.map (·.definition.name)).Nodup
  valid : ∀ c ∈ columns, c.definition.validate = .ok ()

/-- An object of a table under a key: it has a primary key if and as the table asks for one, one
fitting cell for each column, and no other cell. -/
structure Object.Complete (t : Table) (key : ObjectKey) (o : Object) : Prop where
  key_eq : o.key = key
  key_lt : key.index < t.nextObject
  keyed : ∀ d, t.keyDef = some d → d.check t.name o.primaryKey = .ok ()
  unkeyed : t.keyDef = none → o.primaryKey = none
  cell : ∀ c ∈ t.columns, ∃ cell, o.fields[c.key]? = some cell ∧ cell.Fits c.definition
  column : ∀ k ∈ o.fields, ∃ c ∈ t.columns, c.key = k

structure Table.Consistent (t : Table) : Prop where
  columns : Columns.Consistent t.nextColumn t.columns
  keyColumn : ∀ d, t.keyDef = some d → ∃ c ∈ t.columns, c.definition.name = d.column
  object : ∀ (k : ObjectKey) (o : Object), t.objects[k]? = some o → o.Complete t k
  primaryKey_unique : ∀ (j k : ObjectKey) (a b : Object) (p : PrimaryKey),
    t.objects[j]? = some a → t.objects[k]? = some b →
      a.primaryKey = some p → b.primaryKey = some p → j = k

structure Snapshot.Consistent (s : Snapshot) : Prop where
  format_le : s.formatVersion ≤ currentFormat
  names_nodup : (s.tables.map (·.name)).Nodup
  keys_nodup : (s.tables.map (·.key)).Nodup
  key_lt : ∀ t ∈ s.tables, t.key.index < s.nextTable
  table : ∀ t ∈ s.tables, t.Consistent
  target : ∀ t ∈ s.tables, ∀ c ∈ t.columns, ∀ target, c.definition.linkTarget = some target →
    ∃ u ∈ s.tables, u.name = target

/-- The elements of a list have marks of their own, and none that an element of `before` has. -/
def Distinct {α β : Type} (mark : α → β) (before l : List α) : Prop :=
  (∀ a ∈ l, ∀ b ∈ before, mark b ≠ mark a) ∧ (l.map mark).Nodup

namespace Distinct
variable {α β : Type} {mark : α → β} {before l : List α}

@[simp] theorem nil : Distinct mark before [] := by simp [Distinct]

@[simp] theorem nothing_before : Distinct mark [] l ↔ (l.map mark).Nodup := by simp [Distinct]

theorem cons_iff {a : α} :
    Distinct mark before (a :: l) ↔
      (∀ b ∈ before, mark b ≠ mark a) ∧ Distinct mark (a :: before) l := by
  simp only [Distinct, List.forall_mem_cons, List.map_cons, List.nodup_cons, List.mem_map,
    not_exists, not_and]
  constructor
  · rintro ⟨⟨ha, hl⟩, hfresh, hnodup⟩
    exact ⟨ha, fun c hc => ⟨fun h => hfresh c hc h.symm, hl c hc⟩, hnodup⟩
  · rintro ⟨ha, hl, hnodup⟩
    exact ⟨⟨ha, fun c hc => (hl c hc).2⟩, fun c hc h => (hl c hc).1 h.symm, hnodup⟩

end Distinct

namespace Table
variable {t : Table} {o : Object} {key : ObjectKey}

@[simp] theorem inconsistent_ne_ok {α : Type} {what : String} {a : α} :
    ¬t.inconsistent what = .ok a := by
  simp [inconsistent]

@[simp] theorem inconsistent_bind {α β : Type} {what : String} {f : α → Except Cause β} :
    (t.inconsistent what >>= f) = t.inconsistent what := rfl

@[simp] theorem inconsistent_guard_ok_iff {α : Type} {p : Prop} [Decidable p] {what : String}
    {x : Except Cause α} {a : α} :
    (if p then t.inconsistent what else x) = .ok a ↔ ¬p ∧ x = .ok a := by
  by_cases h : p <;> simp [h]

theorem checkColumns_ok_iff {before l : List Column} :
    t.checkColumns before l = .ok () ↔
      (∀ c ∈ l, c.key.index < t.nextColumn ∧ c.definition.validate = .ok ()) ∧
        Distinct (·.key) before l ∧ Distinct (·.definition.name) before l := by
  induction l generalizing before with
  | nil => simp [checkColumns]
  | cons c rest ih =>
    have hstep : t.checkColumns before (c :: rest) = .ok () ↔
        c.key.index < t.nextColumn ∧ (∀ b ∈ before, b.key ≠ c.key) ∧
          (∀ b ∈ before, b.definition.name ≠ c.definition.name) ∧
          c.definition.validate = .ok () ∧ t.checkColumns (c :: before) rest = .ok () := by
      cases hv : c.definition.validate <;> simp [checkColumns, hv, and_assoc]
    rw [hstep, ih, Distinct.cons_iff, Distinct.cons_iff, List.forall_mem_cons]
    tauto

theorem checkKeyColumn_ok_iff :
    t.checkKeyColumn = .ok () ↔
      ∀ d, t.keyDef = some d → ∃ c ∈ t.columns, c.definition.name = d.column := by
  unfold checkKeyColumn
  cases t.keyDef with
  | none => simp
  | some d =>
    by_cases h : t.columns.any (·.definition.name = d.column)
    · simp_all
    · simp_all

theorem checkObjectKey_ok_iff :
    t.checkObjectKey key o = .ok () ↔
      (∀ d, t.keyDef = some d → d.check t.name o.primaryKey = .ok ()) ∧
        (t.keyDef = none → o.primaryKey = none) := by
  unfold checkObjectKey
  cases t.keyDef with
  | none => simp
  | some d =>
    cases h : d.check t.name o.primaryKey <;> simp [h]

theorem cellValues?_eq_some_iff {c : Column} {vs : List Value} :
    cellValues? o c = some vs ↔ ∃ cell, o.fields[c.key]? = some cell ∧
      cell.isList = c.definition.isList ∧ cell.values = vs := by
  unfold cellValues?
  cases o.fields[c.key]? with
  | none => simp
  | some cell => cases cell <;> cases c.definition.isList <;> simp [Cell.isList, Cell.values]

theorem checkCell_ok_iff {c : Column} :
    t.checkCell key o c = .ok () ↔
      ∃ cell, o.fields[c.key]? = some cell ∧ cell.Fits c.definition := by
  unfold checkCell
  cases hc : cellValues? o c with
  | none =>
    simp only [inconsistent_ne_ok, false_iff, not_exists, not_and]
    intro cell hcell hfits
    have hsome := cellValues?_eq_some_iff.mpr ⟨cell, hcell, hfits.shape, rfl⟩
    simp [hc] at hsome
  | some vs =>
    obtain ⟨cell, hcell, hshape, rfl⟩ := cellValues?_eq_some_iff.mp hc
    simp only [Reading.forM_ok_iff, hcell, Option.some.injEq, exists_eq_left']
    constructor
    · refine fun h => ⟨hshape, fun v hv => ?_⟩
      have hcheck := h v hv
      cases hd : c.definition.checkElement v <;> simp_all
    · intro h v hv
      simp [h.admitted v hv]

/-- With a cell for each column, counting the cells is looking for others. -/
theorem size_eq_iff (hkeys : (t.columns.map (·.key)).Nodup)
    (hcells : ∀ c ∈ t.columns, c.key ∈ o.fields) :
    o.fields.size = t.columns.length ↔ ∀ k ∈ o.fields, ∃ c ∈ t.columns, c.key = k := by
  have hfields : o.fields.keys.Nodup := Std.ExtTreeMap.nodup_keys
  have hlen : o.fields.keys.length = o.fields.size := Std.ExtTreeMap.length_keys
  have hsub : ∀ k ∈ t.columns.map (·.key), k ∈ o.fields.keys := by
    intro k hk
    obtain ⟨c, hc, rfl⟩ := List.mem_map.mp hk
    exact Std.ExtTreeMap.mem_keys.mpr (hcells c hc)
  constructor
  · intro hsize k hk
    by_contra hnone
    -- then the keys of the columns and `k` would be more keys than there are cells
    have hnodup : (k :: t.columns.map (·.key)).Nodup := by
      refine List.nodup_cons.mpr ⟨fun hmem => hnone ?_, hkeys⟩
      simpa using hmem
    have hmore : k :: t.columns.map (·.key) ⊆ o.fields.keys := by
      rintro j (_ | ⟨_, hj⟩)
      · exact Std.ExtTreeMap.mem_keys.mpr hk
      · exact hsub j hj
    have hle := hnodup.length_le_of_subset hmore
    simp only [List.length_cons, List.length_map] at hle
    omega
  · intro hall
    have hle := hkeys.length_le_of_subset hsub
    have hsub' : o.fields.keys ⊆ t.columns.map (·.key) := by
      intro k hk
      simpa using hall k (Std.ExtTreeMap.mem_keys.mp hk)
    have hge := hfields.length_le_of_subset hsub'
    simp only [List.length_map] at hle hge
    omega

theorem complete_iff (hkeys : (t.columns.map (·.key)).Nodup) :
    o.Complete t key ↔ o.key = key ∧ key.index < t.nextObject ∧ t.checkObjectKey key o = .ok () ∧
      o.fields.size = t.columns.length ∧ ∀ c ∈ t.columns, t.checkCell key o c = .ok () := by
  have hmem : (∀ c ∈ t.columns, ∃ cell, o.fields[c.key]? = some cell ∧ cell.Fits c.definition) →
      ∀ c ∈ t.columns, c.key ∈ o.fields := by
    intro h c hc
    obtain ⟨cell, hcell, -⟩ := h c hc
    exact FiniteMap.mem_iff_exists.mpr ⟨cell, hcell⟩
  simp only [checkObjectKey_ok_iff, checkCell_ok_iff]
  constructor
  · intro h
    exact ⟨h.key_eq, h.key_lt, ⟨h.keyed, h.unkeyed⟩,
      (size_eq_iff hkeys (hmem h.cell)).mpr h.column, h.cell⟩
  · rintro ⟨hkey, hlt, ⟨hd, hn⟩, hsize, hcell⟩
    exact ⟨hkey, hlt, hd, hn, hcell, (size_eq_iff hkeys (hmem hcell)).mp hsize⟩

theorem checkObjects_ok_iff (hkeys : (t.columns.map (·.key)).Nodup) {before : List PrimaryKey}
    {l : List (ObjectKey × Object)} :
    t.checkObjects before l = .ok () ↔
      (∀ e ∈ l, e.2.Complete t e.1 ∧ ∀ p, e.2.primaryKey = some p → p ∉ before) ∧
        l.Pairwise fun a b => ∀ p, a.2.primaryKey = some p → b.2.primaryKey ≠ some p := by
  induction l generalizing before with
  | nil => simp [checkObjects]
  | cons e rest ih =>
    obtain ⟨key, o⟩ := e
    have hstep : t.checkObjects before ((key, o) :: rest) = .ok () ↔
        o.Complete t key ∧ (∀ p, o.primaryKey = some p → p ∉ before) ∧
          t.checkObjects (o.primaryKey.toList ++ before) rest = .ok () := by
      rw [complete_iff hkeys]
      cases hp : o.primaryKey with
      | none =>
        simp only [checkObjects, hp, inconsistent_bind, inconsistent_guard_ok_iff, not_or, not_not,
          ne_eq, UInt64.not_le, Reading.unit_bind_ok_iff, Reading.forM_ok_iff, reduceCtorEq,
          false_implies, implies_true, true_and]
        tauto
      | some p =>
        simp only [checkObjects, hp, inconsistent_bind, inconsistent_guard_ok_iff, not_or, not_not,
          ne_eq, UInt64.not_le, Reading.unit_bind_ok_iff, Reading.forM_ok_iff,
          Option.some.injEq, forall_eq', List.contains_iff_mem]
        tauto
    rw [hstep, ih]
    simp only [List.forall_mem_cons, List.pairwise_cons, List.mem_append, Option.mem_toList, not_or]
    constructor
    · rintro ⟨hc, hp, hall, hpair⟩
      refine ⟨⟨⟨hc, hp⟩, fun e he => ⟨(hall e he).1, fun p h => ((hall e he).2 p h).2⟩⟩, ?_, hpair⟩
      exact fun e he p ho h => ((hall e he).2 p h).1 ho
    · rintro ⟨⟨⟨hc, hp⟩, hall⟩, hne, hpair⟩
      refine ⟨hc, hp, fun e he => ⟨(hall e he).1, fun p h => ⟨?_, (hall e he).2 p h⟩⟩, hpair⟩
      exact fun ho => hne e he p ho h

theorem checkConsistency_ok_iff : t.checkConsistency = .ok () ↔ t.Consistent := by
  simp only [checkConsistency, Reading.unit_bind_ok_iff, checkColumns_ok_iff, checkKeyColumn_ok_iff,
    Distinct.nothing_before]
  constructor
  · rintro ⟨⟨hcolumns, hkeys, hnames⟩, hkey, hobjects⟩
    obtain ⟨hall, hpair⟩ := (checkObjects_ok_iff hkeys).mp hobjects
    refine ⟨⟨fun c hc => (hcolumns c hc).1, hkeys, hnames, fun c hc => (hcolumns c hc).2⟩, hkey,
      fun k o ho => (hall (k, o) (Std.ExtTreeMap.mem_toList_iff_getElem?_eq_some.mpr ho)).1, ?_⟩
    intro j k a b p ha hb hp hq
    by_contra hne
    have : Std.Symm fun a b : ObjectKey × Object =>
        ∀ p, a.2.primaryKey = some p → b.2.primaryKey ≠ some p := ⟨fun a b h p hb ha => h p ha hb⟩
    exact hpair.forall (Std.ExtTreeMap.mem_toList_iff_getElem?_eq_some.mpr ha)
      (Std.ExtTreeMap.mem_toList_iff_getElem?_eq_some.mpr hb) (fun h => hne (congrArg Prod.fst h))
      p hp hq
  · intro h
    refine ⟨⟨fun c hc => ⟨h.columns.key_lt c hc, h.columns.valid c hc⟩,
      h.columns.keys_nodup, h.columns.names_nodup⟩, h.keyColumn, ?_⟩
    refine (checkObjects_ok_iff h.columns.keys_nodup).mpr ⟨fun ⟨k, o⟩ he => ?_, ?_⟩
    · exact ⟨h.object k o (Std.ExtTreeMap.mem_toList_iff_getElem?_eq_some.mp he), by simp⟩
    · exact FiniteMap.pairwise_toList fun j k a b ha hb hne p hp hq =>
        hne (h.primaryKey_unique j k a b p ha hb hp hq)

end Table

namespace Snapshot
variable {s : Snapshot}

theorem checkTarget_ok_iff {t : Table} {c : Column} :
    s.checkTarget t c = .ok () ↔ ∀ target, c.definition.linkTarget = some target →
      ∃ u ∈ s.tables, u.name = target := by
  unfold checkTarget
  cases c.definition.linkTarget with
  | none => simp
  | some target =>
    by_cases h : s.tables.any (·.name = target)
    · simp_all
    · simp_all

theorem checkTables_ok_iff {before l : List Table} :
    s.checkTables before l = .ok () ↔
      (∀ t ∈ l, t.key.index < s.nextTable ∧ t.Consistent ∧
        ∀ c ∈ t.columns, ∀ target, c.definition.linkTarget = some target →
          ∃ u ∈ s.tables, u.name = target) ∧
        Distinct (·.key) before l ∧ Distinct (·.name) before l := by
  induction l generalizing before with
  | nil => simp [checkTables]
  | cons t rest ih =>
    have hstep : s.checkTables before (t :: rest) = .ok () ↔
        (∀ b ∈ before, b.name ≠ t.name) ∧ (∀ b ∈ before, b.key ≠ t.key) ∧
          t.key.index < s.nextTable ∧ t.Consistent ∧
          (∀ c ∈ t.columns, ∀ target, c.definition.linkTarget = some target →
            ∃ u ∈ s.tables, u.name = target) ∧ s.checkTables (t :: before) rest = .ok () := by
      simp only [checkTables, Reading.throw_bind, Reading.guard_ok_iff, Reading.unit_bind_ok_iff,
        Table.checkConsistency_ok_iff, Reading.forM_ok_iff, checkTarget_ok_iff]
      simp [and_assoc]
    rw [hstep, ih, Distinct.cons_iff, Distinct.cons_iff, List.forall_mem_cons]
    tauto

/-- The snapshots that are accepted are the consistent ones. -/
theorem validate_ok_iff : s.validate = .ok () ↔ s.Consistent := by
  simp only [validate, Reading.throw_bind, Reading.guard_ok_iff, checkTables_ok_iff,
    Distinct.nothing_before, UInt32.not_lt]
  constructor
  · rintro ⟨hformat, hall, hkeys, hnames⟩
    exact ⟨hformat, hnames, hkeys, fun t ht => (hall t ht).1, fun t ht => (hall t ht).2.1,
      fun t ht => (hall t ht).2.2⟩
  · intro h
    exact ⟨h.format_le, fun t ht => ⟨h.key_lt t ht, h.table t ht, h.target t ht⟩, h.keys_nodup,
      h.names_nodup⟩

end Snapshot
end ChangesetReplay
