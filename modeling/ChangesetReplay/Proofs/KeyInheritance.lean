import ChangesetReplay.Proofs.CallLosses

/-! # What a store has it has from before, or under new keys

Keys are counted up and never given out a second time. So what stands in a store under a key that
had been given out earlier is what stood there before: a table of the same name and key definition,
a column of the same definition, an object of the same primary key. -/

namespace ChangesetReplay

/-- What the table `u` has it has from `t`, or under keys that `t` had not given out yet. -/
structure Table.Inherits (t u : Table) : Prop where
  name : u.name = t.name
  keyDef : u.keyDef = t.keyDef
  nextColumn_le : t.nextColumn ≤ u.nextColumn
  nextObject_le : t.nextObject ≤ u.nextObject
  column : ∀ c d, u.columnDef c = .ok d → t.columnDef c = .ok d ∨ t.nextColumn ≤ c.index
  object : ∀ (j : ObjectKey) (o : Object), u.objects[j]? = some o →
    (∃ o', t.objects[j]? = some o' ∧ o'.primaryKey = o.primaryKey) ∨ t.nextObject ≤ j.index

namespace Table.Inherits
variable {t u w : Table}

theorem refl : t.Inherits t where
  name := rfl
  keyDef := rfl
  nextColumn_le := UInt32.le_refl _
  nextObject_le := UInt64.le_refl _
  column _ _ := .inl
  object _ o ho := .inl ⟨o, ho, rfl⟩

theorem trans (h : t.Inherits u) (h' : u.Inherits w) : t.Inherits w where
  name := h'.name.trans h.name
  keyDef := h'.keyDef.trans h.keyDef
  nextColumn_le := UInt32.le_trans h.nextColumn_le h'.nextColumn_le
  nextObject_le := UInt64.le_trans h.nextObject_le h'.nextObject_le
  column c d hd := by
    rcases h'.column c d hd with hd | hnew
    · exact h.column c d hd
    · exact .inr (UInt32.le_trans h.nextColumn_le hnew)
  object j o ho := by
    rcases h'.object j o ho with ⟨o', ho', hkey'⟩ | hnew
    · rcases h.object j o' ho' with ⟨o'', ho'', hkey⟩ | hnew
      · exact .inl ⟨o'', ho'', hkey.trans hkey'⟩
      · exact .inr hnew
    · exact .inr (UInt64.le_trans h.nextObject_le hnew)

/-- Objects are changed one by one, and their primary keys are left alone. -/
theorem of_mapped {f : ObjectKey → Object → Object} (hname : u.name = t.name)
    (hkeyDef : u.keyDef = t.keyDef) (hnextColumn : t.nextColumn ≤ u.nextColumn)
    (hnextObject : u.nextObject = t.nextObject)
    (hcolumn : ∀ c d, u.columnDef c = .ok d → t.columnDef c = .ok d ∨ t.nextColumn ≤ c.index)
    (hobjects : ∀ j : ObjectKey, u.objects[j]? = (t.objects[j]?).map (f j))
    (hkey : ∀ j o, (f j o).primaryKey = o.primaryKey) : t.Inherits u where
  name := hname
  keyDef := hkeyDef
  nextColumn_le := hnextColumn
  nextObject_le := hnextObject ▸ UInt64.le_refl _
  column := hcolumn
  object j o ho := by
    obtain ⟨o', ho', rfl⟩ := Option.map_eq_some_iff.mp ((hobjects j).symm.trans ho)
    exact .inl ⟨o', ho', (hkey j o').symm⟩

theorem withColumn {d : ColumnDef} (hroom : t.nextColumn.toNat + 1 < UInt32.size) :
    t.Inherits (t.withColumn d) := by
  refine .of_mapped rfl rfl (UInt32.le_of_lt (lt_add_one_of_room hroom)) rfl (fun c d' hd => ?_)
    (fun _ => objects_withColumn) fun _ _ => rfl
  obtain ⟨a, ha, rfl⟩ := Keeps.columnDef_ok_iff.mp hd
  rw [Table.withColumn, List.find?_append, Option.or_eq_some_iff] at ha
  rcases ha with ha | ⟨-, ha⟩
  · exact .inl (Keeps.columnDef_ok_iff.mpr ⟨a, ha, rfl⟩)
  · have hmem := List.mem_of_find?_eq_some ha
    have hkey : a.key = c := by simpa using List.find?_some ha
    cases List.mem_singleton.mp hmem
    exact .inr (hkey ▸ UInt32.le_refl _)

theorem dropColumn {column : ColumnKey} : t.Inherits (t.dropColumn column) := by
  refine .of_mapped rfl rfl (UInt32.le_refl _) rfl (fun c d hd => .inl ?_)
    (fun _ => objects_dropColumn) fun _ _ => rfl
  obtain ⟨a, ha, rfl⟩ := Keeps.columnDef_ok_iff.mp hd
  have hne : c ≠ column := by
    rintro rfl
    have hmem := List.mem_filter.mp (List.mem_of_find?_eq_some ha)
    have hkey : a.key = c := by simpa using List.find?_some ha
    simp [hkey] at hmem
  exact Keeps.columnDef_ok_iff.mpr ⟨a, (Keeps.find?_dropColumn hne).symm.trans ha, rfl⟩

theorem setCell {object : ObjectKey} {column : ColumnKey} {c : Cell} :
    t.Inherits (t.setCell object column c) := by
  refine .of_mapped rfl rfl (UInt32.le_refl _) rfl (fun _ _ => .inl) (fun _ => objects_setCell)
    fun j o => ?_
  split <;> rfl

theorem dropLinks {target : String} {object : ObjectKey} :
    t.Inherits (t.dropLinks target object) :=
  .of_mapped rfl rfl (UInt32.le_refl _) rfl (fun _ _ => .inl) (fun _ => objects_dropLinks)
    fun _ _ => rfl

theorem pushObject {key : Option PrimaryKey} (hroom : t.nextObject.toNat + 1 < UInt64.size) :
    t.Inherits (t.pushObject key).2 where
  name := rfl
  keyDef := rfl
  nextColumn_le := UInt32.le_refl _
  nextObject_le := UInt64.le_of_lt (objectKey_lt_add_one hroom)
  column _ _ := .inl
  object j o ho := by
    rcases objects_pushObject.mp ho with ⟨rfl, -⟩ | ⟨-, ho⟩
    · exact .inr (UInt64.le_refl _)
    · exact .inl ⟨o, ho, rfl⟩

theorem dropObject {object : ObjectKey} : t.Inherits (t.dropObject object) where
  name := rfl
  keyDef := rfl
  nextColumn_le := UInt32.le_refl _
  nextObject_le := UInt64.le_refl _
  column _ _ := .inl
  object _ o ho := .inl ⟨o, (objects_dropObject.mp ho).2, rfl⟩

end Table.Inherits

namespace Store

structure Inherits (s s' : Store) : Prop where
  next_le : s.nextTable ≤ s'.nextTable
  table : ∀ (k : TableKey) (u : Table), s'.tables[k]? = some u →
    (∃ t, s.tables[k]? = some t ∧ t.Inherits u) ∨ s.nextTable ≤ k.index

namespace Inherits
variable {s s' s'' : Store} {k : TableKey} {t u : Table}

theorem refl : s.Inherits s := ⟨UInt32.le_refl _, fun _ t ht => .inl ⟨t, ht, .refl⟩⟩

theorem trans (h : s.Inherits s') (h' : s'.Inherits s'') : s.Inherits s'' where
  next_le := UInt32.le_trans h.next_le h'.next_le
  table k w hw := by
    rcases h'.table k w hw with ⟨u, hu, hinherits'⟩ | hnew
    · rcases h.table k u hu with ⟨t, ht, hinherits⟩ | hnew
      · exact .inl ⟨t, ht, hinherits.trans hinherits'⟩
      · exact .inr hnew
    · exact .inr (UInt32.le_trans h.next_le hnew)

theorem putTable (ht : s.tables[k]? = some t) (hu : t.Inherits u) :
    s.Inherits (s.putTable k u) where
  next_le := UInt32.le_refl _
  table j v hv := by
    rcases tables_putTable.mp hv with ⟨rfl, rfl⟩ | ⟨-, hv⟩
    · exact .inl ⟨t, ht, hu⟩
    · exact .inl ⟨v, hv, .refl⟩

theorem putCell {f : FieldRef} {d : ColumnDef} {o : Object} {old c : Cell}
    (place : s.CellAt f t d o old) : s.Inherits (s.putCell f c) := by
  rw [putCell_eq place.table]
  exact .putTable place.table .setCell

theorem dropLinks {target : String} {object : ObjectKey} :
    s.Inherits (s.dropLinks target object) where
  next_le := UInt32.le_refl _
  table k u hu := by
    rw [tables_dropLinks] at hu
    obtain ⟨t, ht, rfl⟩ := Option.map_eq_some_iff.mp hu
    exact .inl ⟨t, ht, .dropLinks⟩

end Inherits

variable {s s' : Store}

theorem Change.inherits (hc : s.Change s') (hroom : s.HasRoom) : s.Inherits s' := by
  cases hc with
  | addTable name keyDef fresh free =>
    refine ⟨UInt32.le_of_lt (lt_add_one_of_room hroom.table), fun k u hu => ?_⟩
    rcases tables_putTable.mp hu with ⟨rfl, -⟩ | ⟨-, hu⟩
    · exact .inr (UInt32.le_refl _)
    · exact .inl ⟨u, hu, .refl⟩
  | eraseTable untargeted =>
    refine ⟨UInt32.le_refl _, fun k u hu => ?_⟩
    exact .inl ⟨u, (FiniteMap.erase_eq_some_iff.mp hu).2, .refl⟩
  | addColumn found valid fresh free target =>
    exact .putTable found (.withColumn (hroom.column _ _ found))
  | eraseColumn found defined noKey => exact .putTable found .dropColumn
  | createObject found admitted free =>
    exact .putTable found (.pushObject (hroom.object _ _ found))
  | eraseObject found present => exact Inherits.trans (.putTable found .dropObject) .dropLinks
  | setScalar place single noKey fits => exact .putCell place
  | editList place fits => exact .putCell place

end Store

end ChangesetReplay
