import ChangesetReplay.Proofs.ActionLaws
import ChangesetReplay.State.Store.Schema
import ChangesetReplay.State.Store.Objects
import ChangesetReplay.State.Store.Fields

/-! # What the actions of a store do

For every reading that actions rely on, and for every action, when it succeeds and with what. Later
modules go by these equivalences and do not look into the actions again. -/

namespace ChangesetReplay

namespace FiniteMap
variable {α β : Type} [Ord α] [Std.TransOrd α] {m : Std.ExtTreeMap α β} {j k : α} {v w : β}

theorem mem_iff_exists : k ∈ m ↔ ∃ v, m[k]? = some v := by
  rw [Std.ExtTreeMap.mem_iff_isSome_getElem?, Option.isSome_iff_exists]

/-- A key that is not in use is not one that is. -/
theorem ne_of_not_mem (hk : k ∉ m) (hj : m[j]? = some v) : k ≠ j := by
  rintro rfl
  exact hk (mem_iff_exists.mpr ⟨v, hj⟩)

variable [Std.LawfulEqOrd α]

theorem insert_eq_some_iff :
    (m.insert k v)[j]? = some w ↔ k = j ∧ v = w ∨ k ≠ j ∧ m[j]? = some w := by
  rw [Std.ExtTreeMap.getElem?_insert]
  by_cases h : k = j
  · simp [h]
  · simp [h]

theorem erase_eq_some_iff : (m.erase k)[j]? = some w ↔ k ≠ j ∧ m[j]? = some w := by
  rw [Std.ExtTreeMap.getElem?_erase]
  by_cases h : k = j
  · simp [h]
  · simp [h]

theorem erase_insert (h : k ∉ m) : (m.insert k v).erase k = m := by
  refine Std.ExtTreeMap.ext_getElem? fun j => Option.ext fun w => ?_
  rw [erase_eq_some_iff, insert_eq_some_iff]
  constructor
  · rintro ⟨hne, ⟨heq, -⟩ | ⟨-, hw⟩⟩
    · exact absurd heq hne
    · exact hw
  · exact fun hw => ⟨ne_of_not_mem h hw, .inr ⟨ne_of_not_mem h hw, hw⟩⟩

theorem insert_insert : (m.insert k v).insert k w = m.insert k w := by
  refine Std.ExtTreeMap.ext_getElem? fun j => ?_
  simp only [Std.ExtTreeMap.getElem?_insert]
  split <;> rfl

theorem insert_comm (h : j ≠ k) : (m.insert j v).insert k w = (m.insert k w).insert j v := by
  refine Std.ExtTreeMap.ext_getElem? fun i => ?_
  simp only [Std.ExtTreeMap.getElem?_insert, Std.LawfulEqCmp.compare_eq_iff_eq]
  by_cases hj : j = i
  · subst hj
    simp [h.symm]
  · simp [hj]

theorem modify_eq_insert {f : β → β} (h : m[k]? = some v) : m.modify k f = m.insert k (f v) := by
  refine Std.ExtTreeMap.ext_getElem? fun j => ?_
  simp only [Std.ExtTreeMap.getElem?_modify, Std.ExtTreeMap.getElem?_insert, h, Option.map_some]

/-- The map of a list of entries with keys of their own. -/
theorem ofList_eq_some_iff [DecidableEq α] {l : List (α × β)} (h : (l.map (·.1)).Nodup) :
    (Std.ExtTreeMap.ofList l)[k]? = some v ↔ (k, v) ∈ l := by
  have hget : ∀ {v}, (k, v) ∈ l → (Std.ExtTreeMap.ofList l)[k]? = some v := fun hmem =>
    Std.ExtTreeMap.getElem?_ofList_of_mem Std.ReflCmp.compare_self
      ((List.pairwise_map.mp h).imp fun hne heq => hne (Std.LawfulEqCmp.eq_of_compare heq)) hmem
  refine ⟨fun hv => ?_, hget⟩
  have hmem : k ∈ Std.ExtTreeMap.ofList l := mem_iff_exists.mpr ⟨v, hv⟩
  obtain ⟨⟨_, w⟩, hw, rfl⟩ := List.mem_map.mp (List.contains_iff_mem.mp
    (Std.ExtTreeMap.mem_ofList.mp hmem))
  rwa [Option.some.inj (hv.symm.trans (hget hw))]

/-- A map is put together again from its entries. -/
theorem ofList_toList [DecidableEq α] (m : Std.ExtTreeMap α β) :
    Std.ExtTreeMap.ofList m.toList = m := by
  have hkeys : (m.toList.map (·.1)).Nodup := by
    rw [Std.ExtTreeMap.map_fst_toList_eq_keys]
    exact Std.ExtTreeMap.nodup_keys
  refine Std.ExtTreeMap.ext_getElem? fun k => Option.ext fun v => ?_
  rw [ofList_eq_some_iff hkeys, Std.ExtTreeMap.mem_toList_iff_getElem?_eq_some]

/-- What holds of all values of a map can be checked on the list of its entries. -/
theorem forall_toList_iff {p : β → Prop} :
    (∀ e ∈ m.toList, p e.2) ↔ ∀ (k : α) (v : β), m[k]? = some v → p v := by
  constructor
  · exact fun h k v hv => h (k, v) (Std.ExtTreeMap.mem_toList_iff_getElem?_eq_some.mpr hv)
  · exact fun h e he => h e.1 e.2 (Std.ExtTreeMap.mem_toList_iff_getElem?_eq_some.mp he)

/-- What holds between the values under any two keys holds along the list of entries. -/
theorem pairwise_toList {r : β → β → Prop}
    (h : ∀ (j k : α) (v w : β), m[j]? = some v → m[k]? = some w → j ≠ k → r v w) :
    m.toList.Pairwise fun a b => r a.2 b.2 := by
  refine Std.ExtTreeMap.distinct_keys_toList.imp_of_mem ?_
  rintro ⟨j, v⟩ ⟨k, w⟩ hv hw hne
  exact h j k v w (Std.ExtTreeMap.mem_toList_iff_getElem?_eq_some.mp hv)
    (Std.ExtTreeMap.mem_toList_iff_getElem?_eq_some.mp hw)
    fun heq => hne (Std.LawfulEqCmp.compare_eq_iff_eq.mpr heq)

end FiniteMap

namespace Table

def withColumn (t : Table) (d : ColumnDef) : Table :=
  { t.mapObjects fun o => { o with fields := o.fields.insert ⟨t.nextColumn⟩ (.empty d) } with
    columns := t.columns ++ [⟨⟨t.nextColumn⟩, d⟩], nextColumn := t.nextColumn + 1 }

/-- A new table, with its key column if it is to have one. -/
def blank (key : TableKey) (name : String) : Option KeyDef → Table
  | none => ⟨key, name, none, [], ∅, 0, 0, ∅⟩
  | some d => ⟨key, name, some d, [⟨⟨0⟩, d.columnDef⟩], ∅, 1, 0, ∅⟩

theorem pushColumn_ok_iff {t t' : Table} {d : ColumnDef} {k : ColumnKey} :
    t.pushColumn d = .ok (k, t') ↔
      (∀ c ∈ t.columns, c.key ≠ ⟨t.nextColumn⟩) ∧ k = ⟨t.nextColumn⟩ ∧ t' = t.withColumn d := by
  unfold pushColumn
  by_cases h : t.columns.any (·.key = ⟨t.nextColumn⟩)
  · simp only [h, if_true]
    simp only [List.any_eq_true, decide_eq_true_eq] at h
    obtain ⟨c, hc, hk⟩ := h
    simp only [reduceCtorEq, false_iff]
    exact fun hn => hn.1 c hc hk
  · simp only [h, Bool.false_eq_true, if_false]
    simp only [List.any_eq_true, decide_eq_true_eq, not_exists, not_and] at h
    simp only [Except.ok.injEq, Prod.mk.injEq]
    constructor
    · rintro ⟨rfl, rfl⟩
      exact ⟨h, rfl, rfl⟩
    · rintro ⟨-, rfl, rfl⟩
      exact ⟨rfl, rfl⟩

theorem create_eq (key : TableKey) (name : String) (keyDef : Option KeyDef) :
    create key name keyDef = .ok (blank key name keyDef) := by
  cases keyDef with
  | none => rfl
  | some d =>
    have h : (⟨key, name, none, [], ∅, 0, 0, ∅⟩ : Table).mapObjects
        (fun o => { o with fields := o.fields.insert ⟨0⟩ (.empty d.columnDef) }) =
        ⟨key, name, none, [], ∅, 0, 0, ∅⟩ := by
      simp [mapObjects]
    simp only [create, pushColumn, List.any_nil, Bool.false_eq_true, if_false, h]
    rfl

theorem columnDef_ok {t : Table} {k : ColumnKey} {d : ColumnDef} (h : t.columnDef k = .ok d) :
    ⟨k, d⟩ ∈ t.columns := by
  unfold columnDef at h
  cases hc : t.columns.find? (·.key = k) with
  | none => simp [hc] at h
  | some c =>
    have hm := List.mem_of_find?_eq_some hc
    have hk : c.key = k := by simpa using List.find?_some hc
    simp only [hc, Except.ok.injEq] at h
    subst hk h
    exact hm

theorem object_ok_iff {t : Table} {k : ObjectKey} {o : Object} :
    t.object k = .ok o ↔ t.objects[k]? = some o := by
  unfold object
  cases t.objects[k]? <;> simp

theorem cell_ok_iff {t : Table} {k : ObjectKey} {column : ColumnKey} {c : Cell} :
    t.cell k column = .ok c ↔ (∃ d, t.columnDef column = .ok d) ∧
      ∃ o, t.objects[k]? = some o ∧ o.fields[column]? = some c := by
  simp only [cell, Reading.bind_ok_iff, object_ok_iff]
  constructor
  · rintro ⟨d, hd, o, ho, hc⟩
    refine ⟨⟨d, hd⟩, o, ho, ?_⟩
    split at hc
    · simp_all
    · simp at hc
  · rintro ⟨⟨d, hd⟩, o, ho, hc⟩
    exact ⟨d, hd, o, ho, by simp [hc]⟩

theorem column?_eq_none_iff {t : Table} {name : String} :
    t.column? name = none ↔ ∀ c ∈ t.columns, c.definition.name ≠ name := by
  simp [column?]

theorem isKeyColumn_iff {t : Table} {d : ColumnDef} :
    t.isKeyColumn d = true ↔ ∃ k, t.keyDef = some k ∧ k.column = d.name := by
  unfold isKeyColumn
  cases t.keyDef <;> simp

theorem mem_linkColumns {t : Table} {target : String} {k : ColumnKey} :
    k ∈ t.linkColumns target ↔
      ∃ c ∈ t.columns, c.definition.linkTarget = some target ∧ c.key = k := by
  simp [linkColumns, and_assoc]

end Table

namespace Store

theorem table_ok_iff {s : Store} {k : TableKey} {t : Table} :
    s.table k = .ok t ↔ s.tables[k]? = some t := by
  unfold table
  cases s.tables[k]? <;> simp

theorem tableName_ok_iff {s : Store} {k : TableKey} {name : String} :
    s.tableName k = .ok name ↔ ∃ t, s.tables[k]? = some t ∧ t.name = name := by
  simp [tableName, table_ok_iff]

theorem tableName_of_tables {s : Store} {k : TableKey} {t : Table} (ht : s.tables[k]? = some t) :
    s.tableName k = .ok t.name := tableName_ok_iff.mpr ⟨t, ht, rfl⟩

/-- Reading on from a table that is there. -/
theorem table_bind_of_tables {α : Type} {s : Store} {k : TableKey} {t : Table}
    {f : Table → Except Cause α} (ht : s.tables[k]? = some t) : (s.table k >>= f) = f t := by
  rw [table_ok_iff.mpr ht, Reading.ok_bind]

theorem mem_tableList {s : Store} {t : Table} :
    t ∈ s.tableList ↔ ∃ k : TableKey, s.tables[k]? = some t := by
  simp [tableList]

theorem tableNamed?_eq_none_iff {s : Store} {name : String} :
    s.tableNamed? name = none ↔
      ∀ (k : TableKey) (t : Table), s.tables[k]? = some t → t.name ≠ name := by
  simp only [tableNamed?, List.find?_eq_none, mem_tableList, decide_eq_true_eq]
  exact ⟨fun h k t ht => h t ⟨k, ht⟩, fun h t ⟨k, ht⟩ => h k t ht⟩

theorem tableNamed?_eq_some {s : Store} {name : String} {t : Table}
    (h : s.tableNamed? name = some t) : t.name = name ∧ ∃ k : TableKey, s.tables[k]? = some t :=
  ⟨by simpa using List.find?_some h, mem_tableList.mp (List.mem_of_find?_eq_some h)⟩

theorem findTable_eq_none_iff {s : Store} {name : String} :
    s.findTable name = none ↔
      ∀ (k : TableKey) (t : Table), s.tables[k]? = some t → t.name ≠ name := by
  simp only [findTable, Option.map_eq_none_iff, tableNamed?_eq_none_iff]

theorem linkOrigins_nil_iff {s : Store} {table : TableKey} :
    s.linkOrigins table = .ok [] ↔ ∃ t, s.tables[table]? = some t ∧
      ∀ (k : TableKey) (u : Table), s.tables[k]? = some u → u.key ≠ table →
        ∀ c ∈ u.columns, c.definition.linkTarget ≠ some t.name := by
  have hl : ∀ (u : Table) (name : String), u.linkColumns name = [] ↔
      ∀ c ∈ u.columns, c.definition.linkTarget ≠ some name := by
    intro u name
    simp [Table.linkColumns]
  simp only [linkOrigins, Reading.bind_ok_iff, Reading.pure_ok_iff, tableName_ok_iff,
    List.map_eq_nil_iff, List.filter_eq_nil_iff, mem_tableList]
  constructor
  · rintro ⟨name, ⟨t, ht, rfl⟩, h⟩
    refine ⟨t, ht, fun k u hu hk => (hl u t.name).mp ?_⟩
    simpa [hk] using h u ⟨k, hu⟩
  · rintro ⟨t, ht, h⟩
    refine ⟨t.name, ⟨t, ht, rfl⟩, ?_⟩
    rintro u ⟨k, hu⟩
    simp only [decide_eq_true_eq, not_and]
    exact fun hk hn => hn ((hl u t.name).mpr (h k u hu hk))

/-- An address leads to the cell `c` of the object `o`, in the column that `d` defines. -/
structure CellAt (s : Store) (f : FieldRef) (t : Table) (d : ColumnDef) (o : Object) (c : Cell) :
    Prop where
  table : s.tables[f.table]? = some t
  column : t.columnDef f.column = .ok d
  object : t.objects[f.object]? = some o
  cell : o.fields[f.column]? = some c

theorem cellAt_iff {s : Store} {f : FieldRef} {t : Table} {c : Cell}
    (ht : s.tables[f.table]? = some t) :
    t.cell f.object f.column = .ok c ↔ ∃ d o, s.CellAt f t d o c := by
  rw [Table.cell_ok_iff]
  constructor
  · rintro ⟨⟨d, hd⟩, o, ho, hc⟩
    exact ⟨d, o, ht, hd, ho, hc⟩
  · rintro ⟨d, o, h⟩
    exact ⟨⟨d, h.column⟩, o, h.object, h.cell⟩

theorem items_ok_iff {s : Store} {f : FieldRef} {items : List Value} :
    s.items f = .ok items ↔ ∃ t d o, s.CellAt f t d o (.list items) := by
  simp only [Store.items, Reading.bind_ok_iff, table_ok_iff]
  constructor
  · rintro ⟨t, ht, c, hc, h⟩
    cases c with
    | scalar v => simp at h
    | list l =>
      cases Reading.pure_ok_iff.mp h
      exact ⟨t, (cellAt_iff ht).mp hc⟩
  · rintro ⟨t, d, o, h⟩
    exact ⟨t, h.table, .list items, (cellAt_iff h.table).mpr ⟨d, o, h⟩, rfl⟩

theorem scalar_ok_iff {s : Store} {f : FieldRef} {v : Value} :
    s.scalar f = .ok v ↔ ∃ t d o, s.CellAt f t d o (.scalar v) := by
  simp only [Store.scalar, Reading.bind_ok_iff, table_ok_iff]
  constructor
  · rintro ⟨t, ht, c, hc, h⟩
    cases c with
    | list l => simp at h
    | scalar w =>
      cases Reading.pure_ok_iff.mp h
      exact ⟨t, (cellAt_iff ht).mp hc⟩
  · rintro ⟨t, d, o, h⟩
    exact ⟨t, h.table, .scalar v, (cellAt_iff h.table).mpr ⟨d, o, h⟩, rfl⟩

theorem containsObject_ok_iff {s : Store} {k : TableKey} {o : ObjectKey} {b : Bool} :
    s.containsObject k o = .ok b ↔ ∃ t, s.tables[k]? = some t ∧ t.objects.contains o = b := by
  simp only [containsObject, Reading.bind_ok_iff, Reading.pure_ok_iff, table_ok_iff]

/-- A value may be written if it is of the column's type and, for a link, leads to an object of the
table linked to. -/
theorem checkValue_ok_iff {s : Store} {d : ColumnDef} {v : Value} :
    s.checkValue d v = .ok () ↔ d.checkElement v = .ok () ∧
      ∀ o target, v = .link o → d.linkTarget = some target →
        ∃ k t, s.findTable target = some k ∧ s.tables[k]? = some t ∧ o ∈ t.objects := by
  simp only [checkValue, Reading.bind_ok_iff]
  constructor
  · rintro ⟨⟨⟩, hv, h⟩
    refine ⟨hv, ?_⟩
    rintro o target rfl htarget
    rw [htarget] at h
    cases hk : s.findTable target with
    | none => simp [hk] at h
    | some k =>
      simp only [hk, Reading.bind_ok_iff, containsObject_ok_iff] at h
      obtain ⟨b, ⟨t, ht, hb⟩, h⟩ := h
      refine ⟨k, t, rfl, ht, ?_⟩
      cases b with
      | false => simp at h
      | true => exact Std.ExtTreeMap.mem_iff_contains.mpr hb
  · rintro ⟨hv, h⟩
    refine ⟨(), hv, ?_⟩
    split
    · rename_i o target htarget
      obtain ⟨k, t, hk, ht, ho⟩ := h o target rfl htarget
      simp only [hk, Reading.bind_ok_iff, containsObject_ok_iff]
      exact ⟨true, ⟨t, ht, Std.ExtTreeMap.mem_iff_contains.mp ho⟩, by simp⟩
    · rfl

theorem writableScalar_ok_iff {s : Store} {f : FieldRef} {d : ColumnDef} :
    s.writableScalar f = .ok d ↔ ∃ t, s.tables[f.table]? = some t ∧
      t.columnDef f.column = .ok d ∧ d.isList = false ∧ t.isKeyColumn d = false := by
  simp only [writableScalar, Reading.bind_ok_iff, table_ok_iff]
  constructor
  · rintro ⟨t, ht, d', hd, h⟩
    cases hl : d'.isList with
    | true => simp [hl] at h
    | false =>
      cases hk : t.isKeyColumn d' with
      | true => simp [hl, hk] at h
      | false =>
        simp only [hl, hk, Bool.false_eq_true, if_false, Except.ok.injEq] at h
        subst h
        exact ⟨t, ht, hd, hl, hk⟩
  · rintro ⟨t, ht, hd, hl, hk⟩
    exact ⟨t, ht, d, hd, by simp [hl, hk]⟩

theorem addTable_ok_iff {s s' : Store} {name : String} {keyDef : Option KeyDef} {k : TableKey} :
    addTable name keyDef s = .ok k s' ↔
      s.findTable name = none ∧ ⟨s.nextTable⟩ ∉ s.tables ∧ ⟨s.nextTable⟩ = k ∧
        { s with nextTable := s.nextTable + 1 }.putTable ⟨s.nextTable⟩
          (.blank ⟨s.nextTable⟩ name keyDef) = s' := by
  simp [addTable, Table.create_eq]

theorem eraseTable_ok_iff {s s' : Store} {table : TableKey} {u : Unit} :
    eraseTable table s = .ok u s' ↔
      s.linkOrigins table = .ok [] ∧ { s with tables := s.tables.erase table } = s' := by
  simp only [eraseTable, ActionLaws.read_bind_ok_iff]
  constructor
  · rintro ⟨origins, h, hs⟩
    cases origins with
    | cons origin rest => simp at hs
    | nil => exact ⟨h, ActionLaws.modify_ok_iff.mp hs⟩
  · rintro ⟨h, rfl⟩
    exact ⟨[], h, rfl⟩

theorem addColumn_ok_iff {s s' : Store} {table : TableKey} {d : ColumnDef} {k : ColumnKey} :
    addColumn table d s = .ok k s' ↔
      d.validate = .ok () ∧ (∀ target, d.linkTarget = some target → s.findTable target ≠ none) ∧
        ∃ t, s.tables[table]? = some t ∧ t.column? d.name = none ∧
          (∀ c ∈ t.columns, c.key ≠ ⟨t.nextColumn⟩) ∧ ⟨t.nextColumn⟩ = k ∧
          s.putTable table (t.withColumn d) = s' := by
  have hpush : ∀ t : Table,
      (∃ k' t', t.pushColumn d = .ok (k', t') ∧ k' = k ∧ s.putTable table t' = s') ↔
        (∀ c ∈ t.columns, ¬c.key = ⟨t.nextColumn⟩) ∧ ⟨t.nextColumn⟩ = k ∧
          s.putTable table (t.withColumn d) = s' := by
    intro t
    simp only [Table.pushColumn_ok_iff]
    constructor
    · rintro ⟨k', t', ⟨hk, rfl, rfl⟩, rfl, rfl⟩
      exact ⟨hk, rfl, rfl⟩
    · rintro ⟨hk, rfl, rfl⟩
      exact ⟨_, _, ⟨hk, rfl, rfl⟩, rfl, rfl⟩
  cases htarget : d.linkTarget with
  | none => simp [addColumn, htarget, table_ok_iff, hpush]
  | some target => simp [addColumn, htarget, table_ok_iff, hpush]

theorem eraseColumn_ok_iff {s s' : Store} {table : TableKey} {column : ColumnKey} {u : Unit} :
    eraseColumn table column s = .ok u s' ↔
      ∃ t d, s.tables[table]? = some t ∧ t.columnDef column = .ok d ∧ t.isKeyColumn d = false ∧
        s.putTable table (t.dropColumn column) = s' := by
  simp [eraseColumn, table_ok_iff]

theorem checkNewKey_ok_iff {t : Table} {key : Option PrimaryKey} :
    checkNewKey t key = .ok () ↔
      (∀ d, t.keyDef = some d → d.check t.name key = .ok ()) ∧ (t.keyDef = none → key = none) ∧
        ∀ k, key = some k → k ∉ t.keyIndex := by
  cases hd : t.keyDef with
  | none =>
    cases key with
    | none => simp [checkNewKey, hd]
    | some k => simp [checkNewKey, hd]
  | some d =>
    cases key with
    | none => simp [checkNewKey, hd]
    | some k => simp [checkNewKey, hd]

theorem createObject_ok_iff {s s' : Store} {table : TableKey} {key : Option PrimaryKey}
    {k : ObjectKey} :
    createObject table key s = .ok k s' ↔
      ∃ t, s.tables[table]? = some t ∧ checkNewKey t key = .ok () ∧
        ⟨t.nextObject⟩ ∉ t.objects ∧ ⟨t.nextObject⟩ = k ∧
        s.putTable table (t.pushObject key).2 = s' := by
  simp [createObject, table_ok_iff, Table.pushObject]

/-- The store after an object of the table called `target` was forgotten. -/
def dropLinks (s : Store) (target : String) (object : ObjectKey) : Store :=
  { s with tables := s.tables.map fun _ t => t.dropLinks target object }

theorem eraseObject_ok_iff {s s' : Store} {table : TableKey} {object : ObjectKey} {u : Unit} :
    eraseObject table object s = .ok u s' ↔
      ∃ t, s.tables[table]? = some t ∧ object ∈ t.objects ∧
        (s.putTable table (t.dropObject object)).dropLinks t.name object = s' := by
  simp [eraseObject, table_ok_iff, dropLinks]

theorem setScalar_ok_iff {s s' : Store} {f : FieldRef} {v : Value} {u : Unit} :
    setScalar f v s = .ok u s' ↔
      ∃ t d o c, s.CellAt f t d o c ∧ d.isList = false ∧ t.isKeyColumn d = false ∧
        s.checkValue d v = .ok () ∧ s.putCell f (.scalar v) = s' := by
  simp only [setScalar, ActionLaws.read_bind_ok_iff, ActionLaws.modify_ok_iff, Reading.bind_ok_iff,
    table_ok_iff, writableScalar_ok_iff]
  constructor
  · rintro ⟨d, ⟨t, ht, hd, hl, hk⟩, ⟨⟩, hv, c, ⟨t', ht', hc⟩, rfl⟩
    cases ht.symm.trans ht'
    obtain ⟨d', o, h⟩ := (cellAt_iff ht).mp hc
    cases hd.symm.trans h.column
    exact ⟨t, d, o, c, h, hl, hk, hv, rfl⟩
  · rintro ⟨t, d, o, c, h, hl, hk, hv, rfl⟩
    exact ⟨d, ⟨t, h.table, h.column, hl, hk⟩, (), hv, c,
      ⟨t, h.table, (cellAt_iff h.table).mpr ⟨d, o, h⟩⟩, rfl⟩

theorem addInt_ok_iff {s s' : Store} {f : FieldRef} {delta sum : Int64} :
    addInt f delta s = .ok sum s' ↔
      ∃ t d o n, s.CellAt f t d o (.scalar (.int n)) ∧ d.isList = false ∧ t.isKeyColumn d = false ∧
        n + delta = sum ∧ s.putCell f (.scalar (.int sum)) = s' := by
  unfold addInt
  rw [ActionLaws.read_bind_ok_iff]
  constructor
  · rintro ⟨d, hd, h⟩
    obtain ⟨c, hc, h⟩ := ActionLaws.read_bind_ok_iff.mp h
    obtain ⟨t, ht, hcolumn, hl, hk⟩ := writableScalar_ok_iff.mp hd
    obtain ⟨t', ht', hc⟩ := Reading.bind_ok_iff.mp hc
    cases ht.symm.trans (table_ok_iff.mp ht')
    obtain ⟨d', o, hat⟩ := (cellAt_iff ht).mp hc
    cases hcolumn.symm.trans hat.column
    cases c with
    | list items => exact absurd h ActionLaws.throw_ne_ok
    | scalar v =>
      cases v with
      | int n =>
        obtain ⟨rfl, rfl⟩ := ActionLaws.pure_ok_iff.mp h
        exact ⟨t, d, o, n, hat, hl, hk, rfl, rfl⟩
      | _ => exact absurd h ActionLaws.throw_ne_ok
  · rintro ⟨t, d, o, n, h, hl, hk, rfl, rfl⟩
    have hcell := (cellAt_iff h.table).mpr ⟨d, o, h⟩
    refine ⟨d, writableScalar_ok_iff.mpr ⟨t, h.table, h.column, hl, hk⟩, ?_⟩
    exact ActionLaws.read_bind_ok_iff.mpr
      ⟨_, Reading.bind_ok_iff.mpr ⟨t, table_ok_iff.mpr h.table, hcell⟩, rfl⟩

theorem editList_ok_iff {s s' : Store} {f : FieldRef}
    {edit : List Value → Except Cause (List Value)} {u : Unit} :
    editList f edit s = .ok u s' ↔
      ∃ l l', s.items f = .ok l ∧ edit l = .ok l' ∧ s.putCell f (.list l') = s' := by
  simp [editList]

theorem checkElement_ok_iff {s s' : Store} {f : FieldRef} {v : Value} {u : Unit} :
    checkElement f v s = .ok u s' ↔
      (∃ t d, s.tables[f.table]? = some t ∧ t.columnDef f.column = .ok d ∧
        s.checkValue d v = .ok ()) ∧ s = s' := by
  simp only [checkElement, ActionLaws.read_bind_ok_iff, ActionLaws.read_ok_iff,
    Reading.bind_ok_iff, table_ok_iff]
  constructor
  · rintro ⟨d, ⟨t, ht, hd⟩, hv, rfl⟩
    exact ⟨⟨t, d, ht, hd, hv⟩, rfl⟩
  · rintro ⟨⟨t, d, ht, hd, hv⟩, rfl⟩
    exact ⟨d, ⟨t, ht, hd⟩, hv, rfl⟩

/-- An edit that an element is checked for. -/
theorem checkedEdit_ok_iff {s s' : Store} {f : FieldRef} {v : Value}
    {edit : List Value → Except Cause (List Value)} {u : Unit} :
    (checkElement f v >>= fun _ => editList f edit) s = .ok u s' ↔
      (∃ t d, s.tables[f.table]? = some t ∧ t.columnDef f.column = .ok d ∧
        s.checkValue d v = .ok ()) ∧ editList f edit s = .ok u s' := by
  rw [ActionLaws.bind_ok_iff]
  constructor
  · rintro ⟨_, s₁, hcheck, hedit⟩
    obtain ⟨hfits, rfl⟩ := checkElement_ok_iff.mp hcheck
    exact ⟨hfits, hedit⟩
  · rintro ⟨hfits, hedit⟩
    exact ⟨(), s, checkElement_ok_iff.mpr ⟨hfits, rfl⟩, hedit⟩

end Store
end ChangesetReplay
