import ChangesetReplay.Proofs.ReachableStores

/-! # Links lead to objects

A link is only the number of an object, and its column only names the table where that object is. In
a reachable store the table and the object are there. In a filled store this is kept by every
change: links are checked when they are written, and an object takes the links to it along when it
is erased. -/

namespace ChangesetReplay

namespace Table

/-- Some object of the table holds a link to `x` in a column that leads to the table `target`. -/
def LinksTo (t : Table) (target : String) (x : ObjectKey) : Prop :=
  ∃ c ∈ t.columns, c.definition.linkTarget = some target ∧
    ∃ (k : ObjectKey) (o : Object) (cell : Cell), t.objects[k]? = some o ∧
      o.fields[c.key]? = some cell ∧ .link x ∈ cell.values

variable {t : Table} {d : ColumnDef} {target : String} {x : ObjectKey}

theorem not_link_mem_empty : .link x ∉ (Cell.empty d).values := by
  unfold Cell.empty ColumnDef.defaultValue
  split
  · simp [Cell.values]
  · split
    · simp [Cell.values]
    · split <;> simp [Cell.values]

theorem not_link_mem_newCell {key : Option PrimaryKey} : .link x ∉ (t.newCell d key).values := by
  cases key with
  | none => exact not_link_mem_empty
  | some k =>
    simp only [newCell]
    split
    · cases k <;> simp [Cell.values, PrimaryKey.toValue]
    · exact not_link_mem_empty

theorem not_linksTo_blank {key : TableKey} {name : String} {keyDef : Option KeyDef} :
    ¬(blank key name keyDef).LinksTo target x := by
  rintro ⟨c, hc, hlink, -⟩
  cases (linkTarget_of_blank hc).symm.trans hlink

theorem LinksTo.of_withColumn (h : (t.withColumn d).LinksTo target x) : t.LinksTo target x := by
  obtain ⟨c, hc, hlink, k, o, cell, ho, hcell, hx⟩ := h
  simp only [withColumn, mapObjects, Std.ExtTreeMap.getElem?_map, Option.map_eq_some_iff] at ho
  obtain ⟨o, ho, rfl⟩ := ho
  rcases FiniteMap.insert_eq_some_iff.mp hcell with ⟨-, rfl⟩ | ⟨hne, hcell⟩
  · exact absurd hx not_link_mem_empty
  · rcases List.mem_append.mp hc with hc | hc
    · exact ⟨c, hc, hlink, k, o, cell, ho, hcell, hx⟩
    · cases List.mem_singleton.mp hc
      exact absurd rfl hne

theorem LinksTo.of_dropColumn {column : ColumnKey} (h : (t.dropColumn column).LinksTo target x) :
    t.LinksTo target x := by
  obtain ⟨c, hc, hlink, k, o, cell, ho, hcell, hx⟩ := h
  simp only [dropColumn, mapObjects, Std.ExtTreeMap.getElem?_map, Option.map_eq_some_iff] at ho
  obtain ⟨o, ho, rfl⟩ := ho
  obtain ⟨-, hcell⟩ := FiniteMap.erase_eq_some_iff.mp hcell
  exact ⟨c, (List.mem_filter.mp hc).1, hlink, k, o, cell, ho, hcell, hx⟩

theorem LinksTo.of_pushObject {key : Option PrimaryKey} (hkeys : (t.columns.map (·.key)).Nodup)
    (h : (t.pushObject key).2.LinksTo target x) : t.LinksTo target x := by
  obtain ⟨c, hc, hlink, k, o, cell, ho, hcell, hx⟩ := h
  rcases objects_pushObject.mp ho with ⟨-, rfl⟩ | ⟨-, ho⟩
  · cases (newFields_getElem? hkeys hc).symm.trans hcell
    exact absurd hx not_link_mem_newCell
  · exact ⟨c, hc, hlink, k, o, cell, ho, hcell, hx⟩

theorem LinksTo.of_dropObject {object : ObjectKey} (h : (t.dropObject object).LinksTo target x) :
    t.LinksTo target x := by
  obtain ⟨c, hc, hlink, k, o, cell, ho, hcell, hx⟩ := h
  exact ⟨c, hc, hlink, k, o, cell, (objects_dropObject.mp ho).2, hcell, hx⟩

/-- A link in a table where a cell was written was there before, or is in that cell. -/
theorem LinksTo.of_setCell {object : ObjectKey} {column : ColumnKey} {cell : Cell} (ht : t.Filled)
    (hd : t.columnDef column = .ok d) (h : (t.setCell object column cell).LinksTo target x) :
    t.LinksTo target x ∨ d.linkTarget = some target ∧ .link x ∈ cell.values := by
  obtain ⟨c, hc, hlink, k, o, old, ho, hcell, hx⟩ := h
  simp only [setCell, Std.ExtTreeMap.getElem?_modify, Std.LawfulEqCmp.compare_eq_iff_eq] at ho
  split at ho
  · rename_i hk
    subst hk
    obtain ⟨a, ha, rfl⟩ := Option.map_eq_some_iff.mp ho
    rcases FiniteMap.insert_eq_some_iff.mp hcell with ⟨hk, rfl⟩ | ⟨-, hcell⟩
    · exact .inr ⟨ht.columnDef_mem hd hc hk.symm ▸ hlink, hx⟩
    · exact .inl ⟨c, hc, hlink, _, a, old, ha, hcell, hx⟩
  · exact .inl ⟨c, hc, hlink, k, o, old, ho, hcell, hx⟩

theorem link_mem_withoutLink {object : ObjectKey} {c : Cell}
    (h : .link x ∈ (c.withoutLink object).values) : x ≠ object ∧ .link x ∈ c.values := by
  cases c with
  | list items => simpa [Cell.withoutLink, Cell.values, and_comm] using h
  | scalar v =>
    simp only [Cell.withoutLink, Cell.values, List.mem_singleton] at h ⊢
    split at h
    · cases h
    · rename_i hne
      exact ⟨fun heq => hne (heq ▸ h.symm), h⟩

/-- A link that is left when an object was forgotten does not lead to that object. -/
theorem LinksTo.of_dropLinks {name : String} {object : ObjectKey}
    (h : (t.dropLinks name object).LinksTo target x) :
    t.LinksTo target x ∧ (target = name → x ≠ object) := by
  obtain ⟨c, hc, hlink, k, o, cell, ho, hcell, hx⟩ := h
  simp only [dropLinks, mapObjects, Std.ExtTreeMap.getElem?_map, Option.map_eq_some_iff] at ho
  obtain ⟨o, ho, rfl⟩ := ho
  simp only [Std.ExtTreeMap.getElem?_map, Option.map_eq_some_iff] at hcell
  obtain ⟨cell, hcell, rfl⟩ := hcell
  split at hx
  · obtain ⟨hne, hx⟩ := link_mem_withoutLink hx
    exact ⟨⟨c, hc, hlink, k, o, cell, ho, hcell, hx⟩, fun _ => hne⟩
  · rename_i hnot
    refine ⟨⟨c, hc, hlink, k, o, cell, ho, hcell, hx⟩, fun heq => absurd ?_ hnot⟩
    exact mem_linkColumns.mpr ⟨c, hc, heq ▸ hlink, rfl⟩

end Table

namespace Store

def HasObject (s : Store) (name : String) (x : ObjectKey) : Prop :=
  ∃ (k : TableKey) (t : Table), s.tables[k]? = some t ∧ t.name = name ∧ x ∈ t.objects

/-- Every link leads to an object of the table that its column names. -/
def Linked (s : Store) : Prop :=
  ∀ (k : TableKey) (t : Table), s.tables[k]? = some t →
    ∀ target x, t.LinksTo target x → s.HasObject target x

variable {s : Store} {k : TableKey} {t u : Table} {target : String} {x : ObjectKey}

theorem HasObject.putTable (ht : s.tables[k]? = some t) (hname : u.name = t.name)
    (hobjects : ∀ x ∈ t.objects, x ∈ u.objects) (h : s.HasObject target x) :
    (s.putTable k u).HasObject target x := by
  obtain ⟨j, v, hv, rfl, hx⟩ := h
  by_cases hj : k = j
  · subst hj
    cases ht.symm.trans hv
    exact ⟨k, u, tables_putTable_self, hname, hobjects x hx⟩
  · exact ⟨j, v, tables_putTable.mpr (.inr ⟨hj, hv⟩), rfl, hx⟩

/-- A table may be replaced by one that has lost no object and whose links lead to objects. -/
theorem Linked.putTable (h : s.Linked) (ht : s.tables[k]? = some t) (hname : u.name = t.name)
    (hobjects : ∀ x ∈ t.objects, x ∈ u.objects)
    (hlinks : ∀ target x, u.LinksTo target x → s.HasObject target x) : (s.putTable k u).Linked := by
  intro j v hv target x hx
  refine HasObject.putTable ht hname hobjects ?_
  rcases tables_putTable.mp hv with ⟨-, rfl⟩ | ⟨-, hv⟩
  · exact hlinks target x hx
  · exact h j v hv target x hx

/-- A link that passes the check of a value leads to an object. -/
theorem hasObject_of_checkValue {d : ColumnDef} (hs : s.Named)
    (h : s.checkValue d (.link x) = .ok ()) (hlink : d.linkTarget = some target) :
    s.HasObject target x := by
  obtain ⟨k, u, hk, hu, hx⟩ := (checkValue_ok_iff.mp h).2 x target rfl hlink
  obtain ⟨v, hv, hname⟩ := hs.findTable_eq_some_iff.mp hk
  cases hv.symm.trans hu
  exact ⟨k, u, hu, hname, hx⟩

theorem Linked.putCell {f : FieldRef} {d : ColumnDef} {o : Object} {old c : Cell} (h : s.Linked)
    (hs : s.Filled) (place : s.CellAt f t d o old)
    (hc : ∀ x, .link x ∈ c.values → .link x ∈ old.values ∨ s.checkValue d (.link x) = .ok ()) :
    (s.putCell f c).Linked := by
  rw [putCell_eq place.table]
  have ht := hs.table _ t place.table
  refine h.putTable place.table rfl (fun x hx => Std.ExtTreeMap.mem_modify.mpr hx)
    fun target x hx => ?_
  rcases hx.of_setCell ht place.column with hx | ⟨hlink, hx⟩
  · exact h _ t place.table target x hx
  · rcases hc x hx with hx | hx
    · exact h _ t place.table target x
        ⟨_, Table.columnDef_ok place.column, hlink, _, o, old, place.object, place.cell, hx⟩
    · exact hasObject_of_checkValue hs.named hx hlink

theorem Linked.addTable {name : String} {keyDef : Option KeyDef} (h : s.Linked)
    (hfree : ⟨s.nextTable⟩ ∉ s.tables) :
    Linked ({ s with nextTable := s.nextTable + 1 }.putTable ⟨s.nextTable⟩
      (.blank ⟨s.nextTable⟩ name keyDef)) := by
  intro j v hv target x hx
  rcases tables_putTable.mp hv with ⟨-, rfl⟩ | ⟨-, hv⟩
  · exact absurd hx Table.not_linksTo_blank
  · obtain ⟨i, w, hw, hname, hmem⟩ := h j v hv target x hx
    have hne := FiniteMap.ne_of_not_mem hfree hw
    exact ⟨i, w, tables_putTable.mpr (.inr ⟨hne, hw⟩), hname, hmem⟩

theorem Linked.eraseTable (h : s.Linked) (hs : s.Named) (hlinks : s.linkOrigins k = .ok []) :
    Linked { s with tables := s.tables.erase k } := by
  obtain ⟨t, ht, hnone⟩ := linkOrigins_nil_iff.mp hlinks
  intro j v hv target x hx
  obtain ⟨hne, hv⟩ := FiniteMap.erase_eq_some_iff.mp hv
  obtain ⟨i, w, hw, hname, hmem⟩ := h j v hv target x hx
  have hi : k ≠ i := by
    rintro rfl
    cases ht.symm.trans hw
    obtain ⟨c, hc, hlink, -⟩ := hx
    have hkey : v.key ≠ k := by
      rw [hs.key_eq j v hv]
      exact hne.symm
    exact hnone j v hv hkey c hc (hname ▸ hlink)
  exact ⟨i, w, FiniteMap.erase_eq_some_iff.mpr ⟨hi, hw⟩, hname, hmem⟩

/-- Erasing an object and then every link to it. In between, those links lead nowhere. -/
theorem Linked.eraseObject {object : ObjectKey} (h : s.Linked) (ht : s.tables[k]? = some t) :
    ((s.putTable k (t.dropObject object)).dropLinks t.name object).Linked := by
  intro j v hv target x hx
  rw [tables_dropLinks] at hv
  obtain ⟨w, hw, rfl⟩ := Option.map_eq_some_iff.mp hv
  obtain ⟨hx, hne⟩ := hx.of_dropLinks
  have hold : s.HasObject target x := by
    rcases tables_putTable.mp hw with ⟨-, rfl⟩ | ⟨-, hw⟩
    · exact h k t ht target x hx.of_dropObject
    · exact h j w hw target x hx
  obtain ⟨i, u, hu, rfl, hmem⟩ := hold
  by_cases hi : k = i
  · subst hi
    cases ht.symm.trans hu
    have hput : (s.putTable k (t.dropObject object)).tables[k]? = some (t.dropObject object) :=
      tables_putTable_self
    refine ⟨k, (t.dropObject object).dropLinks t.name object,
      by rw [tables_dropLinks, hput]; rfl, rfl, ?_⟩
    simpa [Table.dropLinks, Table.mapObjects, Table.dropObject, hmem] using (hne rfl).symm
  · have hput : (s.putTable k (t.dropObject object)).tables[i]? = some u :=
      tables_putTable.mpr (.inr ⟨hi, hu⟩)
    exact ⟨i, u.dropLinks t.name object, by rw [tables_dropLinks, hput]; rfl, rfl,
      by simpa [Table.dropLinks, Table.mapObjects] using hmem⟩

/-- Each change of a filled store keeps its links leading to objects. -/
theorem Change.linked {s' : Store} (hc : Change s s') (hs : s.Filled) (h : s.Linked) :
    s'.Linked := by
  cases hc with
  | addTable name keyDef fresh free => exact h.addTable free
  | eraseTable untargeted => exact h.eraseTable hs.named untargeted
  | @addColumn k t d found valid fresh free target =>
    exact h.putTable found rfl (by simp [Table.withColumn, Table.mapObjects])
      fun target x hx => h k t found target x hx.of_withColumn
  | @eraseColumn k t column d found defined noKey =>
    exact h.putTable found rfl (by simp [Table.dropColumn, Table.mapObjects])
      fun target x hx => h k t found target x hx.of_dropColumn
  | @createObject k t key found admitted free =>
    exact h.putTable found rfl (fun x hx => Std.ExtTreeMap.mem_insert.mpr (.inr hx))
      fun target x hx => h k t found target x
        (hx.of_pushObject (hs.table k t found).keys_nodup)
  | eraseObject found present => exact h.eraseObject found
  | @setScalar f t d o c v place single noKey fits =>
    refine h.putCell hs place fun x hx => ?_
    cases List.mem_singleton.mp hx
    rcases fits with hv | ⟨m, n, -, hv⟩
    · exact .inr hv
    · cases hv
  | @editList f t d o l l' place fits =>
    exact h.putCell hs place fun x hx => fits (.link x) hx

theorem Reachable.linked {v : SchemaVersion} (h : Reachable v s) : s.Sound ∧ s.Linked := by
  refine Reaches.invariant (P := fun s => s.Sound ∧ s.Linked) h ⟨new_sound v, by simp [Linked, new]⟩
    fun hs room hchange => ?_
  exact ⟨hchange.sound hs.1 room, hchange.linked hs.1.filled hs.2⟩

theorem Sound.tableNamed?_eq (h : s.Sound) (ht : s.tables[k]? = some t) :
    s.tableNamed? t.name = some t := h.named.tableNamed?_eq ht

/-- In a reachable store, every column that links leads to a table that exists, and every link in a
cell of it, single or in a list, leads to an object of that table. -/
theorem reachable_links_lead {v : SchemaVersion} (h : Reachable v s) (ht : s.tables[k]? = some t)
    {c : Column} (hc : c ∈ t.columns) (hlink : c.definition.linkTarget = some target) :
    ∃ u, s.tableNamed? target = some u ∧
      ∀ (j : ObjectKey) (o : Object) (cell : Cell) (x : ObjectKey), t.objects[j]? = some o →
        o.fields[c.key]? = some cell → .link x ∈ cell.values → x ∈ u.objects := by
  obtain ⟨hs, hlinked⟩ := h.linked
  obtain ⟨i, u, hu, rfl⟩ := hs.target k t ht c hc target hlink
  refine ⟨u, hs.tableNamed?_eq hu, fun j o cell x ho hcell hx => ?_⟩
  obtain ⟨i', u', hu', hname, hmem⟩ :=
    hlinked k t ht u.name x ⟨c, hc, hlink, j, o, cell, ho, hcell, hx⟩
  cases hs.name_unique i' i u' u hu' hu hname
  cases hu.symm.trans hu'
  exact hmem

theorem reachable_links_lead_team :
    Reachable 1 teamStore ∧ teamStore.scalar ⟨⟨1⟩, ⟨0⟩, ⟨1⟩⟩ = .ok (.link ⟨0⟩) ∧
      ∃ u, teamStore.tableNamed? "teams" = some u ∧ ⟨0⟩ ∈ u.objects := by
  refine ⟨teamStore_reachable, by rfl, ?_⟩
  obtain ⟨u, hu, hlinks⟩ := reachable_links_lead teamStore_reachable (k := ⟨1⟩) (by rfl)
    (c := ⟨⟨1⟩, .linkTo "team" "teams"⟩) (by decide) (by rfl)
  exact ⟨u, hu, hlinks ⟨0⟩ _ (.scalar (.link ⟨0⟩)) ⟨0⟩ (by rfl) (by rfl) (by decide)⟩

end Store
end ChangesetReplay
