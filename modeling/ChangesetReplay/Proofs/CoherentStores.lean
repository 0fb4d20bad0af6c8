import ChangesetReplay.Proofs.SoundStores

/-! # Coherent stores

The primary key of an object is held three times: by the object, by the index of its table, and by
a cell in the key column. In a coherent store the three agree. Every change keeps a store coherent,
even once its counters have run out: a key that is given out is first checked not to be in use. -/

namespace ChangesetReplay

/-- An object with a primary key that `d` admits, which it also holds in the column `c`. -/
def Object.KeyedBy (d : KeyDef) (table : String) (c : ColumnKey) (o : Object) : Prop :=
  ∃ p, o.primaryKey = some p ∧ d.check table (some p) = .ok () ∧
    o.fields[c]? = some (.scalar p.toValue)

structure Table.Coherent (t : Table) : Prop where
  keys_nodup : (t.columns.map (·.key)).Nodup
  names_nodup : (t.columns.map (·.definition.name)).Nodup
  keyed : ∀ d, t.keyDef = some d → ∃ c ∈ t.columns, c.definition.name = d.column ∧
    ∀ (j : ObjectKey) (o : Object), t.objects[j]? = some o → o.KeyedBy d t.name c.key
  unkeyed : t.keyDef = none → ∀ (j : ObjectKey) (o : Object), t.objects[j]? = some o →
    o.primaryKey = none
  indexed : t.Indexed

namespace Table.Coherent
variable {t u : Table} {d : ColumnDef}

/-- A column is defined under its key as it stands in the list. -/
theorem columnDef_eq (h : t.Coherent) {c : Column} (hc : c ∈ t.columns) :
    t.columnDef c.key = .ok c.definition := by
  cases hfound : t.columns.find? (·.key = c.key) with
  | none => simpa using List.find?_eq_none.mp hfound c hc
  | some a =>
    have hk : a.key = c.key := by simpa using List.find?_some hfound
    cases List.inj_on_of_nodup_map h.keys_nodup (List.mem_of_find?_eq_some hfound) hc hk
    simp only [columnDef, hfound]

theorem column?_eq (h : t.Coherent) {c : Column} (hc : c ∈ t.columns) :
    t.column? c.definition.name = some c := by
  cases hfound : t.column? c.definition.name with
  | none => exact absurd rfl (column?_eq_none_iff.mp hfound c hc)
  | some a =>
    have hname : a.definition.name = c.definition.name := by
      simpa using List.find?_some hfound
    rw [List.inj_on_of_nodup_map h.names_nodup (List.mem_of_find?_eq_some hfound) hc hname]

/-- Objects are changed one by one, and what they hold of their primary keys is left alone. -/
theorem of_mapped {f : ObjectKey → Object → Object} (h : t.Coherent)
    (hkeys : (u.columns.map (·.key)).Nodup) (hnames : (u.columns.map (·.definition.name)).Nodup)
    (hkeyDef : u.keyDef = t.keyDef) (hname : u.name = t.name) (hindex : u.keyIndex = t.keyIndex)
    (hobjects : ∀ k : ObjectKey, u.objects[k]? = (t.objects[k]?).map (f k))
    (hkey : ∀ k o, (f k o).primaryKey = o.primaryKey)
    (hcell : ∀ c ∈ t.columns, t.isKeyColumn c.definition = true → c ∈ u.columns ∧
      ∀ (k : ObjectKey) (o : Object) (p : PrimaryKey), t.objects[k]? = some o →
        o.fields[c.key]? = some (.scalar p.toValue) →
          (f k o).fields[c.key]? = some (.scalar p.toValue)) : u.Coherent where
  keys_nodup := hkeys
  names_nodup := hnames
  keyed d hd := by
    obtain ⟨c, hc, hcolumn, hkeyed⟩ := h.keyed d (hkeyDef ▸ hd)
    obtain ⟨hcu, hstays⟩ := hcell c hc (isKeyColumn_iff.mpr ⟨d, hkeyDef ▸ hd, hcolumn.symm⟩)
    refine ⟨c, hcu, hcolumn, fun j o ho => ?_⟩
    rw [hobjects, Option.map_eq_some_iff] at ho
    obtain ⟨o, ho, rfl⟩ := ho
    obtain ⟨p, hp, hcheck, hfield⟩ := hkeyed j o ho
    exact ⟨p, (hkey j o).trans hp, hname ▸ hcheck, hstays j o p ho hfield⟩
  unkeyed hd j o ho := by
    rw [hobjects, Option.map_eq_some_iff] at ho
    obtain ⟨o, ho, rfl⟩ := ho
    exact (hkey j o).trans (h.unkeyed (hkeyDef ▸ hd) j o ho)
  indexed := h.indexed.of_mapped hindex hobjects hkey

theorem blank (key : TableKey) (name : String) (keyDef : Option KeyDef) :
    (Table.blank key name keyDef).Coherent := by
  have hfilled := Table.Filled.blank key name keyDef
  have hnone : ∀ k : ObjectKey, (Table.blank key name keyDef).objects[k]? = none := by
    cases keyDef <;> simp [Table.blank]
  refine ⟨hfilled.keys_nodup, hfilled.names_nodup, fun d hd => ?_, fun _ j o ho => ?_,
    (Table.Sound.blank key name keyDef).indexed⟩
  · obtain ⟨c, hc, hheld⟩ := hfilled.keyColumn d hd
    refine ⟨c, hc, hheld.name, fun j o ho => ?_⟩
    cases (hnone j).symm.trans ho
  · cases (hnone j).symm.trans ho

theorem withColumn (h : t.Coherent) (hfresh : t.column? d.name = none)
    (hfree : ∀ c ∈ t.columns, c.key ≠ ⟨t.nextColumn⟩) : (t.withColumn d).Coherent := by
  refine h.of_mapped (u := t.withColumn d)
    (f := fun _ o => { o with fields := o.fields.insert ⟨t.nextColumn⟩ (.empty d) })
    (nodup_map_concat h.keys_nodup hfree)
    (nodup_map_concat h.names_nodup (column?_eq_none_iff.mp hfresh)) rfl rfl rfl
    (fun _ => objects_withColumn) (fun _ _ => rfl) fun c hc _ => ?_
  refine ⟨List.mem_append_left _ hc, fun k o p ho hfield => ?_⟩
  exact FiniteMap.insert_eq_some_iff.mpr (.inr ⟨(hfree c hc).symm, hfield⟩)

theorem dropColumn {column : ColumnKey} (h : t.Coherent) (hd : t.columnDef column = .ok d)
    (hnoKey : t.isKeyColumn d = false) : (t.dropColumn column).Coherent := by
  refine h.of_mapped (u := t.dropColumn column)
    (f := fun _ o => { o with fields := o.fields.erase column })
    (h.keys_nodup.sublist (List.filter_sublist.map _))
    (h.names_nodup.sublist (List.filter_sublist.map _)) rfl rfl rfl
    (fun _ => objects_dropColumn) (fun _ _ => rfl) fun c hc hkey => ?_
  have hne : c.key ≠ column := by
    rintro rfl
    cases hd.symm.trans (h.columnDef_eq hc)
    simp [hnoKey] at hkey
  refine ⟨List.mem_filter.mpr ⟨hc, by simpa using hne⟩, fun k o p ho hfield => ?_⟩
  exact FiniteMap.erase_eq_some_iff.mpr ⟨hne.symm, hfield⟩

/-- A cell may be written that is not in the key column, or that held no single value. -/
theorem setCell {object : ObjectKey} {column : ColumnKey} {o : Object} {old cell : Cell}
    (h : t.Coherent) (hd : t.columnDef column = .ok d) (ho : t.objects[object]? = some o)
    (hold : o.fields[column]? = some old) (hnoKey : t.isKeyColumn d = false ∨ ∃ l, old = .list l) :
    (t.setCell object column cell).Coherent := by
  refine h.of_mapped (u := t.setCell object column cell)
    (f := fun k o => if k = object then { o with fields := o.fields.insert column cell } else o)
    h.keys_nodup h.names_nodup rfl rfl rfl (fun _ => objects_setCell) ?_ fun c hc hkey => ?_
  · intro k o
    split <;> rfl
  · refine ⟨hc, fun k a p ha hfield => ?_⟩
    split
    · rename_i hk
      subst hk
      cases ho.symm.trans ha
      have hne : column ≠ c.key := by
        rintro rfl
        rcases hnoKey with hnoKey | ⟨l, rfl⟩
        · cases hd.symm.trans (h.columnDef_eq hc)
          simp [hnoKey] at hkey
        · cases hold.symm.trans hfield
      exact FiniteMap.insert_eq_some_iff.mpr (.inr ⟨hne, hfield⟩)
    · exact hfield

theorem dropLinks (h : t.Coherent) (target : String) (object : ObjectKey) :
    (t.dropLinks target object).Coherent := by
  refine h.of_mapped (u := t.dropLinks target object)
    (f := fun _ o => { o with fields := o.fields.map fun column c =>
      if column ∈ t.linkColumns target then c.withoutLink object else c })
    h.keys_nodup h.names_nodup rfl rfl rfl (fun _ => objects_dropLinks) (fun _ _ => rfl)
    fun c hc _ => ⟨hc, fun k o p ho hfield => ?_⟩
  have hsame : (Cell.scalar p.toValue).withoutLink object = .scalar p.toValue := by
    cases p <;> rfl
  simp only [Std.ExtTreeMap.getElem?_map, hfield, Option.map_some, hsame, ite_self]

theorem dropObject (h : t.Coherent) (object : ObjectKey) : (t.dropObject object).Coherent where
  keys_nodup := h.keys_nodup
  names_nodup := h.names_nodup
  keyed d hd := by
    obtain ⟨c, hc, hcolumn, hkeyed⟩ := h.keyed d hd
    exact ⟨c, hc, hcolumn, fun j o ho => hkeyed j o (objects_dropObject.mp ho).2⟩
  unkeyed hd j o ho := h.unkeyed hd j o (objects_dropObject.mp ho).2
  indexed := h.indexed.dropObject object

theorem pushObject {key : Option PrimaryKey} (h : t.Coherent)
    (hkey : Store.checkNewKey t key = .ok ()) (hfree : ⟨t.nextObject⟩ ∉ t.objects) :
    (t.pushObject key).2.Coherent where
  keys_nodup := h.keys_nodup
  names_nodup := h.names_nodup
  keyed d hd := by
    obtain ⟨c, hc, hcolumn, hkeyed⟩ := h.keyed d hd
    refine ⟨c, hc, hcolumn, fun j o ho => ?_⟩
    rcases objects_pushObject.mp ho with ⟨-, rfl⟩ | ⟨-, ho⟩
    · have hcheck := (Store.checkNewKey_ok_iff.mp hkey).1 d hd
      cases key with
      | none => simp [KeyDef.check] at hcheck
      | some p =>
        have hkeyColumn : t.isKeyColumn c.definition = true :=
          isKeyColumn_iff.mpr ⟨d, hd, hcolumn.symm⟩
        have hcell : (t.newFields (some p))[c.key]? = some (.scalar p.toValue) := by
          rw [newFields_getElem? h.keys_nodup hc, newCell, if_pos hkeyColumn]
        exact ⟨p, rfl, hcheck, hcell⟩
    · exact hkeyed j o ho
  unkeyed hd j o ho := by
    rcases objects_pushObject.mp ho with ⟨-, rfl⟩ | ⟨-, ho⟩
    · exact (Store.checkNewKey_ok_iff.mp hkey).2.1 hd
    · exact h.unkeyed hd j o ho
  indexed := h.indexed.pushObject hkey (by simpa using hfree)

end Table.Coherent

namespace Store

structure Coherent (s : Store) : Prop where
  named : s.Named
  table : ∀ (k : TableKey) (t : Table), s.tables[k]? = some t → t.Coherent

namespace Coherent
variable {s s' : Store} {k : TableKey} {t u : Table}

theorem new (v : SchemaVersion) : (Store.new v).Coherent :=
  ⟨⟨by simp [Store.new], by simp [Store.new]⟩, by simp [Store.new]⟩

theorem putTable (h : s.Coherent) (ht : s.tables[k]? = some t) (hu : u.Coherent)
    (hkey : u.key = t.key) (hname : u.name = t.name) : (s.putTable k u).Coherent :=
  ⟨h.named.putTable ht hkey hname, forall_putTable h.table hu⟩

theorem dropLinks (h : s.Coherent) (target : String) (object : ObjectKey) :
    (s.dropLinks target object).Coherent where
  named := h.named.dropLinks target object
  table := forall_dropLinks fun j w hw => (h.table j w hw).dropLinks target object

theorem putCell {f : FieldRef} {d : ColumnDef} {o : Object} {old cell : Cell} (h : s.Coherent)
    (place : s.CellAt f t d o old) (hnoKey : t.isKeyColumn d = false ∨ ∃ l, old = .list l) :
    (s.putCell f cell).Coherent := by
  rw [putCell_eq place.table]
  exact h.putTable place.table
    ((h.table _ t place.table).setCell place.column place.object place.cell hnoKey) rfl rfl

end Coherent

/-- Each change of a store keeps it coherent. -/
theorem Change.coherent {s s' : Store} (hc : Change s s') (h : s.Coherent) : s'.Coherent := by
  cases hc with
  | addTable name keyDef fresh free =>
    exact ⟨h.named.addTable keyDef fresh, forall_putTable h.table (.blank _ _ _)⟩
  | @eraseTable k untargeted =>
    exact ⟨h.named.eraseTable k,
      fun j v hv => h.table j v (FiniteMap.erase_eq_some_iff.mp hv).2⟩
  | @addColumn k t d found valid fresh free target =>
    exact h.putTable found ((h.table k t found).withColumn fresh free) rfl rfl
  | @eraseColumn k t column d found defined noKey =>
    exact h.putTable found ((h.table k t found).dropColumn defined noKey) rfl rfl
  | @createObject k t key found admitted free =>
    exact h.putTable found ((h.table k t found).pushObject admitted free) rfl rfl
  | @eraseObject k t object found present =>
    exact (h.putTable found ((h.table k t found).dropObject object) rfl rfl).dropLinks _ _
  | setScalar place single noKey fits => exact h.putCell place (.inl noKey)
  | @editList f t d o l l' place fits => exact h.putCell place (.inr ⟨l, rfl⟩)

end Store
end ChangesetReplay
