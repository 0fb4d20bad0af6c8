import Mathlib.Data.List.Nodup
import ChangesetReplay.Proofs.SnapshotConsistency

/-! # Filled tables

The columns of a filled table have keys and names of their own, and its key column can hold every
key that its key definition admits. Each of its objects has one fitting cell for each column, and no
other cell. Every change of one table leaves it filled, whatever its counters are: a key that is
given out is first checked not to be in use. -/

namespace ChangesetReplay

namespace KeyDef

theorem columnDef_valid (d : KeyDef) : d.columnDef.validate = .ok () := by
  obtain ⟨column, type, nullable⟩ := d
  cases type <;> rfl

/-- A column that can hold the keys of a definition. It may be null where no key may. -/
structure HeldBy (d : KeyDef) (c : ColumnDef) : Prop where
  name : c.name = d.column
  type : c.type = d.type.valueType
  single : c.isList = false
  nullable : d.nullable = true → c.nullable = true

theorem heldBy_columnDef (d : KeyDef) : d.HeldBy d.columnDef := ⟨rfl, rfl, rfl, id⟩

/-- A key that is admitted as a key is admitted by a column that holds keys. -/
theorem HeldBy.checkElement {d : KeyDef} {c : ColumnDef} {table : String} {k : PrimaryKey}
    (hc : d.HeldBy c) (h : d.check table (some k) = .ok ()) :
    c.checkElement k.toValue = .ok () := by
  obtain ⟨column, type, nullable⟩ := d
  have htype := hc.type
  have hnull := hc.nullable
  cases type <;> cases k <;> cases nullable <;>
    simp_all [check, ColumnDef.checkElement, PrimaryKey.toValue, Value.type?, KeyType.valueType]

end KeyDef

namespace ColumnDef
variable {d : ColumnDef} {target : String}

theorem type_of_linkTarget (h : d.validate = .ok ()) (ht : d.linkTarget = some target) :
    d.type = .link := by
  unfold validate at h
  rw [ht] at h
  cases htype : d.type <;> simp_all

/-- A single link may be null. -/
theorem nullable_of_linkTarget (h : d.validate = .ok ()) (ht : d.linkTarget = some target)
    (hl : d.isList = false) : d.nullable = true := by
  have htype := type_of_linkTarget h ht
  unfold validate at h
  rw [ht, htype] at h
  cases hn : d.nullable <;> simp_all

theorem nullable_of_link (h : d.validate = .ok ()) (ht : d.type = .link) (hl : d.isList = false) :
    d.nullable = true := by
  unfold validate at h
  rw [ht] at h
  cases hn : d.nullable <;> cases hd : d.linkTarget <;> simp_all

theorem checkElement_null (h : d.nullable = true) : d.checkElement .null = .ok () := by
  simp [checkElement, Value.type?, h]

theorem checkElement_default (h : d.validate = .ok ()) (hl : d.isList = false) :
    d.checkElement d.defaultValue = .ok () := by
  unfold defaultValue
  cases hn : d.nullable with
  | true => exact checkElement_null hn
  | false =>
    cases ht : d.type with
    | link => simp [nullable_of_link h ht hl] at hn
    | _ => simp [checkElement, Value.type?, ht, Timestamp.isValid, Timestamp.nanosPerSecond]

/-- Whether an integer is admitted does not depend on which it is. -/
theorem checkElement_int {m n : Int64} (h : d.checkElement (.int m) = .ok ()) :
    d.checkElement (.int n) = .ok () := h

end ColumnDef

namespace Cell
variable {d : ColumnDef}

theorem empty_fits (h : d.validate = .ok ()) : (empty d).Fits d := by
  unfold empty
  cases hl : d.isList with
  | true => exact ⟨hl.symm, by simp [values]⟩
  | false => exact ⟨hl.symm, by simpa [values] using ColumnDef.checkElement_default h hl⟩

theorem withoutLink_fits {target : String} {object : ObjectKey} {c : Cell}
    (hv : d.validate = .ok ()) (ht : d.linkTarget = some target) (h : c.Fits d) :
    (c.withoutLink object).Fits d := by
  cases c with
  | list items =>
    refine ⟨h.shape, fun v hmem => h.admitted v ?_⟩
    exact (List.mem_filter.mp hmem).1
  | scalar v =>
    refine ⟨h.shape, ?_⟩
    have hnull := ColumnDef.nullable_of_linkTarget hv ht h.shape.symm
    simp only [withoutLink, values, List.mem_singleton, forall_eq]
    split
    · exact ColumnDef.checkElement_null hnull
    · exact h.admitted v (by simp [values])

end Cell

theorem nodup_map_concat {α β : Type} {mark : α → β} {l : List α} {a : α}
    (hl : (l.map mark).Nodup) (ha : ∀ b ∈ l, mark b ≠ mark a) : ((l ++ [a]).map mark).Nodup := by
  have hnot : mark a ∉ l.map mark := by
    intro hmem
    obtain ⟨b, hb, heq⟩ := List.mem_map.mp hmem
    exact ha b hb heq
  rw [List.map_append, List.map_singleton, ← List.concat_eq_append]
  exact hl.concat hnot

namespace Table
variable {t : Table} {object k : ObjectKey} {o : Object} {p : PrimaryKey}

theorem objects_dropObject :
    (t.dropObject object).objects[k]? = some o ↔ object ≠ k ∧ t.objects[k]? = some o :=
  FiniteMap.erase_eq_some_iff

theorem keyIndex_dropObject :
    (t.dropObject object).keyIndex[p]? = some k ↔
      (∀ o, t.objects[object]? = some o → o.primaryKey ≠ some p) ∧ t.keyIndex[p]? = some k := by
  unfold dropObject
  cases ho : t.objects[object]? with
  | none => simp
  | some o =>
    obtain ⟨key, primaryKey, fields⟩ := o
    cases primaryKey with
    | none => simp
    | some q => simp [FiniteMap.erase_eq_some_iff]

theorem objects_pushObject {key : Option PrimaryKey} :
    (t.pushObject key).2.objects[k]? = some o ↔
      ⟨t.nextObject⟩ = k ∧ ⟨⟨t.nextObject⟩, key, t.newFields key⟩ = o ∨
        ⟨t.nextObject⟩ ≠ k ∧ t.objects[k]? = some o :=
  FiniteMap.insert_eq_some_iff

theorem keyIndex_pushObject {key : Option PrimaryKey} :
    (t.pushObject key).2.keyIndex[p]? =
      if key = some p then some ⟨t.nextObject⟩ else t.keyIndex[p]? := by
  cases key with
  | none => simp [pushObject]
  | some q => simp [pushObject, Std.ExtTreeMap.getElem?_insert]

theorem objects_withColumn {d : ColumnDef} :
    (t.withColumn d).objects[k]? =
      (t.objects[k]?).map fun o => { o with fields := o.fields.insert ⟨t.nextColumn⟩ (.empty d) } := by
  simp [withColumn, mapObjects]

theorem objects_dropColumn {column : ColumnKey} :
    (t.dropColumn column).objects[k]? =
      (t.objects[k]?).map fun o => { o with fields := o.fields.erase column } := by
  simp [dropColumn, mapObjects]

theorem objects_setCell {column : ColumnKey} {c : Cell} :
    (t.setCell object column c).objects[k]? = (t.objects[k]?).map fun o =>
      if k = object then { o with fields := o.fields.insert column c } else o := by
  by_cases hk : k = object
  · subst hk
    simp [setCell]
  · simp [setCell, Std.ExtTreeMap.getElem?_modify, hk, Ne.symm hk]

theorem mem_objects_setCell {column : ColumnKey} {c : Cell} :
    k ∈ (t.setCell object column c).objects ↔ k ∈ t.objects := by
  simp only [Std.ExtTreeMap.mem_iff_isSome_getElem?, objects_setCell, Option.isSome_map]

theorem objects_dropLinks {target : String} :
    (t.dropLinks target object).objects[k]? = (t.objects[k]?).map fun o =>
      { o with fields := o.fields.map fun column c =>
          if column ∈ t.linkColumns target then c.withoutLink object else c } := by
  simp [dropLinks, mapObjects]

theorem newFields_getElem? {key : Option PrimaryKey} {c : Column}
    (hkeys : (t.columns.map (·.key)).Nodup) (hc : c ∈ t.columns) :
    (t.newFields key)[c.key]? = some (t.newCell c.definition key) := by
  refine Std.ExtTreeMap.getElem?_ofList_of_mem Std.ReflCmp.compare_self ?_ ?_
  · rw [List.pairwise_map]
    refine (List.pairwise_map.mp hkeys).imp fun hne => ?_
    simpa using hne
  · exact List.mem_map_of_mem hc

theorem linkTarget_of_blank {key : TableKey} {name : String} {keyDef : Option KeyDef} {c : Column}
    (hc : c ∈ (blank key name keyDef).columns) : c.definition.linkTarget = none := by
  cases keyDef with
  | none => simp [blank] at hc
  | some d =>
    cases List.mem_singleton.mp hc
    rfl

theorem mem_newFields {key : Option PrimaryKey} {j : ColumnKey} :
    j ∈ t.newFields key ↔ ∃ c ∈ t.columns, c.key = j := by
  simp [newFields, Std.ExtTreeMap.mem_ofList]

end Table

/-- An object with one fitting cell for each of the columns, and no other cell. -/
structure Object.Fills (columns : List Column) (o : Object) : Prop where
  cell : ∀ c ∈ columns, ∃ cell, o.fields[c.key]? = some cell ∧ cell.Fits c.definition
  column : ∀ k ∈ o.fields, ∃ c ∈ columns, c.key = k

namespace Object.Fills
variable {columns : List Column} {o : Object} {k : ColumnKey} {d : ColumnDef}

theorem withColumn (h : o.Fills columns) (hd : d.validate = .ok ())
    (hfree : ∀ c ∈ columns, c.key ≠ k) :
    Fills (columns ++ [⟨k, d⟩]) { o with fields := o.fields.insert k (.empty d) } where
  cell c hc := by
    rcases List.mem_append.mp hc with hc | hc
    · obtain ⟨cell, hcell, hfits⟩ := h.cell c hc
      refine ⟨cell, ?_, hfits⟩
      simp [Std.ExtTreeMap.getElem?_insert, (hfree c hc).symm, hcell]
    · cases List.mem_singleton.mp hc
      exact ⟨.empty d, by simp, Cell.empty_fits hd⟩
  column j hj := by
    rcases Std.ExtTreeMap.mem_insert.mp hj with hj | hj
    · exact ⟨⟨k, d⟩, List.mem_append_right _ (by simp), Std.LawfulEqCmp.compare_eq_iff_eq.mp hj⟩
    · obtain ⟨c, hc, hk⟩ := h.column j hj
      exact ⟨c, List.mem_append_left _ hc, hk⟩

theorem dropColumn (h : o.Fills columns) (k : ColumnKey) :
    Fills (columns.filter (·.key ≠ k)) { o with fields := o.fields.erase k } where
  cell c hc := by
    obtain ⟨hc, hne⟩ := List.mem_filter.mp hc
    obtain ⟨cell, hcell, hfits⟩ := h.cell c hc
    have hne : k ≠ c.key := Ne.symm (by simpa using hne)
    exact ⟨cell, by simp [Std.ExtTreeMap.getElem?_erase, hne, hcell], hfits⟩
  column j hj := by
    obtain ⟨hne, hj⟩ := Std.ExtTreeMap.mem_erase.mp hj
    obtain ⟨c, hc, rfl⟩ := h.column j hj
    have hne : k ≠ c.key := by simpa using hne
    exact ⟨c, List.mem_filter.mpr ⟨hc, by simpa using hne.symm⟩, rfl⟩

theorem setCell {a : Column} {c : Cell} (h : o.Fills columns)
    (hkeys : (columns.map (·.key)).Nodup) (ha : a ∈ columns) (hc : c.Fits a.definition) :
    Fills columns { o with fields := o.fields.insert a.key c } where
  cell b hb := by
    by_cases hk : b.key = a.key
    · cases List.inj_on_of_nodup_map hkeys hb ha hk
      exact ⟨c, by simp, hc⟩
    · obtain ⟨cell, hcell, hfits⟩ := h.cell b hb
      exact ⟨cell, by simp [Std.ExtTreeMap.getElem?_insert, Ne.symm hk, hcell], hfits⟩
  column j hj := by
    rcases Std.ExtTreeMap.mem_insert.mp hj with hj | hj
    · exact ⟨a, ha, Std.LawfulEqCmp.compare_eq_iff_eq.mp hj⟩
    · exact h.column j hj

end Object.Fills

structure Table.Filled (t : Table) : Prop where
  keys_nodup : (t.columns.map (·.key)).Nodup
  names_nodup : (t.columns.map (·.definition.name)).Nodup
  valid : ∀ c ∈ t.columns, c.definition.validate = .ok ()
  keyColumn : ∀ d, t.keyDef = some d → ∃ c ∈ t.columns, d.HeldBy c.definition
  object : ∀ (k : ObjectKey) (o : Object), t.objects[k]? = some o → o.Fills t.columns

namespace Table.Filled
variable {t u : Table} {d : ColumnDef} {a b : Column}

theorem eq_of_key (h : t.Filled) (ha : a ∈ t.columns) (hb : b ∈ t.columns) (hk : a.key = b.key) :
    a = b := List.inj_on_of_nodup_map h.keys_nodup ha hb hk

theorem eq_of_name (h : t.Filled) (ha : a ∈ t.columns) (hb : b ∈ t.columns)
    (hn : a.definition.name = b.definition.name) : a = b :=
  List.inj_on_of_nodup_map h.names_nodup ha hb hn

theorem columnDef_mem (h : t.Filled) {k : ColumnKey} (hd : t.columnDef k = .ok d)
    (ha : a ∈ t.columns) (hk : a.key = k) : a.definition = d := by
  rw [h.eq_of_key ha (columnDef_ok hd) hk]

/-- A change of objects one by one. -/
theorem of_mapped {f : ObjectKey → Object → Object} (h : t.Filled)
    (hkeys : (u.columns.map (·.key)).Nodup) (hnames : (u.columns.map (·.definition.name)).Nodup)
    (hvalid : ∀ c ∈ u.columns, c.definition.validate = .ok ())
    (hkeyColumn : ∀ d, u.keyDef = some d → ∃ c ∈ u.columns, d.HeldBy c.definition)
    (hobjects : ∀ k : ObjectKey, u.objects[k]? = (t.objects[k]?).map (f k))
    (hfills : ∀ k o, o.Fills t.columns → (f k o).Fills u.columns) : u.Filled := by
  refine ⟨hkeys, hnames, hvalid, hkeyColumn, fun k o ho => ?_⟩
  rw [hobjects, Option.map_eq_some_iff] at ho
  obtain ⟨o, ho, rfl⟩ := ho
  exact hfills k o (h.object k o ho)

theorem blank (key : TableKey) (name : String) (keyDef : Option KeyDef) :
    (Table.blank key name keyDef).Filled := by
  cases keyDef with
  | none =>
    refine ⟨?_, ?_, ?_, ?_, ?_⟩ <;> simp [Table.blank]
  | some d =>
    refine ⟨by simp [Table.blank], by simp [Table.blank], ?_, ?_, by simp [Table.blank]⟩
    · simpa [Table.blank] using d.columnDef_valid
    · simpa [Table.blank] using d.heldBy_columnDef

theorem withColumn (h : t.Filled) (hd : d.validate = .ok ()) (hfresh : t.column? d.name = none)
    (hfree : ∀ c ∈ t.columns, c.key ≠ ⟨t.nextColumn⟩) : (t.withColumn d).Filled := by
  refine h.of_mapped (u := t.withColumn d)
    (f := fun _ o => { o with fields := o.fields.insert ⟨t.nextColumn⟩ (.empty d) })
    (nodup_map_concat h.keys_nodup hfree)
    (nodup_map_concat h.names_nodup (column?_eq_none_iff.mp hfresh)) (fun c hc => ?_)
    (fun k hk => ?_) (fun _ => objects_withColumn) fun k o ho => ho.withColumn hd hfree
  · rcases List.mem_append.mp hc with hc | hc
    · exact h.valid c hc
    · cases List.mem_singleton.mp hc
      exact hd
  · obtain ⟨c, hc, hheld⟩ := h.keyColumn k hk
    exact ⟨c, List.mem_append_left _ hc, hheld⟩

theorem dropColumn {column : ColumnKey} (h : t.Filled) (hd : t.columnDef column = .ok d)
    (hnoKey : t.isKeyColumn d = false) : (t.dropColumn column).Filled := by
  refine h.of_mapped (u := t.dropColumn column)
    (f := fun _ o => { o with fields := o.fields.erase column })
    (h.keys_nodup.sublist (List.filter_sublist.map _))
    (h.names_nodup.sublist (List.filter_sublist.map _))
    (fun c hc => h.valid c (List.mem_filter.mp hc).1) (fun k hk => ?_)
    (fun _ => objects_dropColumn) fun k o ho => ho.dropColumn column
  obtain ⟨c, hc, hheld⟩ := h.keyColumn k hk
  have hne : c.key ≠ column := by
    intro heq
    have hkey : t.isKeyColumn d = true := isKeyColumn_iff.mpr
      ⟨k, hk, by rw [← h.columnDef_mem hd hc heq, hheld.name]⟩
    simp [hnoKey] at hkey
  exact ⟨c, List.mem_filter.mpr ⟨hc, by simpa using hne⟩, hheld⟩

theorem setCell {object : ObjectKey} {column : ColumnKey} {c : Cell} (h : t.Filled)
    (hd : t.columnDef column = .ok d) (hc : c.Fits d) : (t.setCell object column c).Filled := by
  refine h.of_mapped (u := t.setCell object column c)
    (f := fun k o => if k = object then { o with fields := o.fields.insert column c } else o)
    h.keys_nodup h.names_nodup h.valid h.keyColumn (fun _ => objects_setCell) fun k o ho => ?_
  split
  · exact ho.setCell h.keys_nodup (columnDef_ok hd) hc
  · exact ho

theorem dropLinks (h : t.Filled) (target : String) (object : ObjectKey) :
    (t.dropLinks target object).Filled := by
  refine h.of_mapped (u := t.dropLinks target object)
    (f := fun _ o => { o with fields := o.fields.map fun column c =>
      if column ∈ t.linkColumns target then c.withoutLink object else c })
    h.keys_nodup h.names_nodup h.valid h.keyColumn (fun _ => objects_dropLinks) fun k o ho =>
      ⟨fun c hc => ?_, fun j hj => ho.column j (by simpa using hj)⟩
  obtain ⟨cell, hcell, hfits⟩ := ho.cell c hc
  by_cases hlink : c.key ∈ t.linkColumns target
  · refine ⟨cell.withoutLink object, by simp [hcell, hlink], ?_⟩
    obtain ⟨a, ha, htarget, hk⟩ := mem_linkColumns.mp hlink
    cases h.eq_of_key ha hc hk
    exact Cell.withoutLink_fits (h.valid c hc) htarget hfits
  · exact ⟨cell, by simp [hcell, hlink], hfits⟩

theorem dropObject (h : t.Filled) (object : ObjectKey) : (t.dropObject object).Filled where
  keys_nodup := h.keys_nodup
  names_nodup := h.names_nodup
  valid := h.valid
  keyColumn := h.keyColumn
  object k o ho := h.object k o (objects_dropObject.mp ho).2

theorem newCell_fits {key : Option PrimaryKey} {c : Column} (h : t.Filled)
    (hkey : Store.checkNewKey t key = .ok ()) (hc : c ∈ t.columns) :
    (t.newCell c.definition key).Fits c.definition := by
  have hempty := Cell.empty_fits (h.valid c hc)
  cases key with
  | none => exact hempty
  | some k =>
    simp only [newCell]
    by_cases hcolumn : t.isKeyColumn c.definition
    · rw [if_pos hcolumn]
      obtain ⟨d, hd, hname⟩ := isKeyColumn_iff.mp hcolumn
      obtain ⟨a, ha, hheld⟩ := h.keyColumn d hd
      -- the column is the key column, so it can hold the key
      cases h.eq_of_name ha hc (hheld.name.trans hname)
      have hcheck := (Store.checkNewKey_ok_iff.mp hkey).1 d hd
      exact ⟨hheld.single.symm, by simpa [Cell.values] using hheld.checkElement hcheck⟩
    · rw [if_neg hcolumn]
      exact hempty

theorem pushObject {key : Option PrimaryKey} (h : t.Filled)
    (hkey : Store.checkNewKey t key = .ok ()) : (t.pushObject key).2.Filled where
  keys_nodup := h.keys_nodup
  names_nodup := h.names_nodup
  valid := h.valid
  keyColumn := h.keyColumn
  object k o ho := by
    rcases objects_pushObject.mp ho with ⟨rfl, rfl⟩ | ⟨-, ho⟩
    · exact ⟨fun c hc => ⟨_, newFields_getElem? h.keys_nodup hc, h.newCell_fits hkey hc⟩,
        fun j hj => mem_newFields.mp hj⟩
    · exact h.object k o ho

end Table.Filled

end ChangesetReplay
