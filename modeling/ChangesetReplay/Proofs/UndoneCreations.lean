import ChangesetReplay.Proofs.IssuedKeys
import ChangesetReplay.Proofs.StoreHistories

/-! # Undone creations

What was just created can be erased at once, and nothing is left of it but a counter that is one
further. An erasure is a sweep: it refuses a table to which others link and a key column, it takes a
column from every object, and links from every table. That it undoes a creation depends on all names
and links of the store: none leads yet to what is new. It does not depend on the counters, which may
have run out before and started anew. -/

namespace ChangesetReplay

namespace Table
variable {t : Table} {d : ColumnDef} {target : String} {x : ObjectKey}

theorem dropColumn_withColumn (ht : t.Filled) (hfree : ∀ c ∈ t.columns, c.key ≠ ⟨t.nextColumn⟩) :
    (t.withColumn d).dropColumn ⟨t.nextColumn⟩ = { t with nextColumn := t.nextColumn + 1 } := by
  have hcolumns : (t.withColumn d).columns.filter (·.key ≠ ⟨t.nextColumn⟩) = t.columns := by
    rw [withColumn, List.filter_append, List.filter_eq_self.mpr (by simpa using hfree)]
    simp
  have hobjects : ((t.withColumn d).dropColumn ⟨t.nextColumn⟩).objects = t.objects := by
    refine Std.ExtTreeMap.ext_getElem? fun k => ?_
    rw [objects_dropColumn, objects_withColumn, Option.map_map]
    cases ho : t.objects[k]? with
    | none => rfl
    | some o =>
      have habsent : ⟨t.nextColumn⟩ ∉ o.fields := fun hmem => by
        obtain ⟨c, hc, hkey⟩ := (ht.object k o ho).column _ hmem
        exact hfree c hc hkey
      simp [FiniteMap.erase_insert habsent]
  calc (t.withColumn d).dropColumn ⟨t.nextColumn⟩
      = { t with
          columns := (t.withColumn d).columns.filter (·.key ≠ ⟨t.nextColumn⟩)
          objects := ((t.withColumn d).dropColumn ⟨t.nextColumn⟩).objects
          nextColumn := t.nextColumn + 1 } := rfl
    _ = { t with nextColumn := t.nextColumn + 1 } := by rw [hcolumns, hobjects]

theorem dropObject_pushObject {key : Option PrimaryKey} (hkey : Store.checkNewKey t key = .ok ())
    (hfree : ⟨t.nextObject⟩ ∉ t.objects) :
    (t.pushObject key).2.dropObject ⟨t.nextObject⟩ = { t with nextObject := t.nextObject + 1 } := by
  have hobjects : (t.pushObject key).2.objects.erase ⟨t.nextObject⟩ = t.objects :=
    FiniteMap.erase_insert hfree
  have hnew : (t.pushObject key).2.objects[(⟨t.nextObject⟩ : ObjectKey)]? =
      some ⟨⟨t.nextObject⟩, key, t.newFields key⟩ := objects_pushObject.mpr (.inl ⟨rfl, rfl⟩)
  have hindex : ((t.pushObject key).2.dropObject ⟨t.nextObject⟩).keyIndex = t.keyIndex := by
    simp only [dropObject, hnew]
    cases key with
    | none => rfl
    | some p => exact FiniteMap.erase_insert ((Store.checkNewKey_ok_iff.mp hkey).2.2 p rfl)
  calc (t.pushObject key).2.dropObject ⟨t.nextObject⟩
      = { t with
          objects := (t.pushObject key).2.objects.erase ⟨t.nextObject⟩
          nextObject := t.nextObject + 1
          keyIndex := ((t.pushObject key).2.dropObject ⟨t.nextObject⟩).keyIndex } := rfl
    _ = { t with nextObject := t.nextObject + 1 } := by rw [hobjects, hindex]

theorem withoutLink_eq {c : Cell} (h : .link x ∉ c.values) : c.withoutLink x = c := by
  cases c with
  | scalar v =>
    have hne : v ≠ .link x := fun heq => h (heq ▸ List.mem_singleton_self _)
    rw [Cell.withoutLink, if_neg hne]
  | list l =>
    have hne : ∀ v ∈ l, v ≠ .link x := fun v hv heq => h (heq ▸ hv)
    rw [Cell.withoutLink, List.filter_eq_self.mpr (by simpa using hne)]

/-- Nothing is taken from a table without links to the object. -/
theorem dropLinks_eq (hlinks : ¬t.LinksTo target x) : t.dropLinks target x = t := by
  have hobjects : (t.dropLinks target x).objects = t.objects := by
    refine Std.ExtTreeMap.ext_getElem? fun k => ?_
    rw [objects_dropLinks]
    cases ho : t.objects[k]? with
    | none => rfl
    | some o =>
      have hfields : (o.fields.map fun column c =>
          if column ∈ t.linkColumns target then c.withoutLink x else c) = o.fields := by
        refine Std.ExtTreeMap.ext_getElem? fun column => ?_
        rw [Std.ExtTreeMap.getElem?_map]
        cases hcell : o.fields[column]? with
        | none => rfl
        | some cell =>
          rw [Option.map_some]
          split
          · rename_i hmem
            obtain ⟨c, hc, hlink, rfl⟩ := mem_linkColumns.mp hmem
            have hnot : .link x ∉ cell.values := fun hx =>
              hlinks ⟨c, hc, hlink, k, o, cell, ho, hcell, hx⟩
            rw [withoutLink_eq hnot]
          · rfl
      rw [Option.map_some, hfields]
  calc t.dropLinks target x = { t with objects := (t.dropLinks target x).objects } := rfl
    _ = t := by rw [hobjects]

end Table

namespace Store
variable {s s' : Store} {k : TableKey} {t u : Table}

theorem putTable_putTable : (s.putTable k t).putTable k u = s.putTable k u := by
  simp only [putTable, FiniteMap.insert_insert]

/-- Nothing is taken from a store without links to the object. -/
theorem dropLinks_eq {target : String} {x : ObjectKey}
    (h : ∀ (j : TableKey) (u : Table), s.tables[j]? = some u → ¬u.LinksTo target x) :
    s.dropLinks target x = s := by
  have htables : (s.dropLinks target x).tables = s.tables := by
    refine Std.ExtTreeMap.ext_getElem? fun j => ?_
    rw [tables_dropLinks]
    cases hu : s.tables[j]? with
    | none => rfl
    | some u => rw [Option.map_some, Table.dropLinks_eq (h j u hu)]
  calc s.dropLinks target x = { s with tables := (s.dropLinks target x).tables } := rfl
    _ = s := by rw [htables]

def advance (s : Store) : KeyFamily → Store
  | .tables => { s with nextTable := s.nextTable + 1 }
  | .columns k =>
    { s with tables := s.tables.modify k fun t => { t with nextColumn := t.nextColumn + 1 } }
  | .objects k =>
    { s with tables := s.tables.modify k fun t => { t with nextObject := t.nextObject + 1 } }

theorem advance_columns (ht : s.tables[k]? = some t) :
    s.advance (.columns k) = s.putTable k { t with nextColumn := t.nextColumn + 1 } := by
  rw [advance, FiniteMap.modify_eq_insert ht, putTable]

theorem advance_objects (ht : s.tables[k]? = some t) :
    s.advance (.objects k) = s.putTable k { t with nextObject := t.nextObject + 1 } := by
  rw [advance, FiniteMap.modify_eq_insert ht, putTable]

theorem toNat_add_one_of_room {n : UInt32} (h : n.toNat + 1 < UInt32.size) :
    (n + 1).toNat = n.toNat + 1 := by
  rw [UInt32.toNat_add]
  exact Nat.mod_eq_of_lt h

theorem counter?_advance (hroom : s.HasRoom) {f : KeyFamily} {n : Nat}
    (hn : s.counter? f = some n) : (s.advance f).counter? f = some (n + 1) := by
  cases f with
  | tables =>
    cases hn
    exact congrArg some (toNat_add_one_of_room hroom.table)
  | columns k =>
    obtain ⟨t, ht, rfl⟩ := Option.map_eq_some_iff.mp hn
    rw [advance_columns ht, counter?, tables_putTable_self, Option.map_some]
    exact congrArg some (toNat_add_one_of_room (hroom.column k t ht))
  | objects k =>
    obtain ⟨t, ht, rfl⟩ := Option.map_eq_some_iff.mp hn
    rw [advance_objects ht, counter?, tables_putTable_self, Option.map_some]
    refine congrArg some ?_
    rw [UInt64.toNat_add]
    exact Nat.mod_eq_of_lt (hroom.object k t ht)

theorem addTable_undone {name : String} {keyDef : Option KeyDef} (hs : s.Filled)
    (h : addTable name keyDef s = .ok k s') : eraseTable k s' = .ok () (s.advance .tables) := by
  obtain ⟨hname, hfree, rfl, rfl⟩ := addTable_ok_iff.mp h
  rw [findTable_eq_none_iff] at hname
  refine eraseTable_ok_iff.mpr ⟨linkOrigins_nil_iff.mpr ⟨_, tables_putTable_self, ?_⟩, ?_⟩
  · -- a column that leads to the new name would have led nowhere before
    intro j u hu hother c hc hlink
    rcases tables_putTable.mp hu with ⟨-, rfl⟩ | ⟨-, hu⟩
    · cases (Table.linkTarget_of_blank hc).symm.trans hlink
    · obtain ⟨i, w, hw, hwname⟩ := hs.target j u hu c hc _ hlink
      have hblank : (Table.blank ⟨s.nextTable⟩ name keyDef).name = name := by cases keyDef <;> rfl
      exact hname i w hw (hwname.trans hblank)
  · have htables : (s.tables.insert ⟨s.nextTable⟩ (.blank ⟨s.nextTable⟩ name keyDef)).erase
        ⟨s.nextTable⟩ = s.tables := FiniteMap.erase_insert hfree
    rw [putTable, htables, advance]

theorem addColumn_undone {d : ColumnDef} {c : ColumnKey} (hs : s.Filled)
    (h : addColumn k d s = .ok c s') : eraseColumn k c s' = .ok () (s.advance (.columns k)) := by
  obtain ⟨-, -, t, ht, hname, hfree, rfl, rfl⟩ := addColumn_ok_iff.mp h
  have hnoKey : (t.withColumn d).isKeyColumn d = false := by
    rw [Bool.eq_false_iff]
    intro hkey
    obtain ⟨key, hkeyDef, hcolumn⟩ := Table.isKeyColumn_iff.mp hkey
    obtain ⟨a, ha, hheld⟩ := (hs.table k t ht).keyColumn key hkeyDef
    exact Table.column?_eq_none_iff.mp hname a ha (hheld.name.trans hcolumn)
  refine eraseColumn_ok_iff.mpr
    ⟨_, d, tables_putTable_self, Table.columnDef_withColumn hfree, hnoKey, ?_⟩
  rw [putTable_putTable, Table.dropColumn_withColumn (hs.table k t ht) hfree, advance_columns ht]

theorem createObject_undone {key : Option PrimaryKey} {x : ObjectKey} (hs : s.Filled)
    (hlinked : s.Linked) (h : createObject k key s = .ok x s') :
    eraseObject k x s' = .ok () (s.advance (.objects k)) := by
  obtain ⟨t, ht, hkey, hfree, rfl, rfl⟩ := createObject_ok_iff.mp h
  have hnew : ⟨t.nextObject⟩ ∈ (t.pushObject key).2.objects := Std.ExtTreeMap.mem_insert_self
  refine eraseObject_ok_iff.mpr ⟨_, tables_putTable_self, hnew, ?_⟩
  rw [putTable_putTable, Table.dropObject_pushObject hkey hfree, advance_objects ht]
  -- a link to the new object would have led nowhere before
  refine dropLinks_eq fun j u hu hlinks => ?_
  have hold : s.HasObject t.name ⟨t.nextObject⟩ := by
    rcases tables_putTable.mp hu with ⟨rfl, rfl⟩ | ⟨-, hu⟩
    · exact hlinked _ t ht _ _ hlinks
    · exact hlinked j u hu _ _ hlinks
  obtain ⟨i, w, hw, hwname, hmem⟩ := hold
  cases hs.named.name_unique i k w t hw ht hwname
  cases hw.symm.trans ht
  exact hfree hmem

end Store

def Key.erasure : Key → Store.Call
  | .table k => .eraseTable k
  | .column k c => .eraseColumn k c
  | .object k x => .eraseObject k x

namespace Store
variable {s : Store}

theorem Call.undone {call : Call} {a : Answer} {s' : Store} {x : Key} (hs : s.Filled)
    (hlinked : s.Linked) (hrun : call.run s = .ok a s') (hx : call.issued? s = some x) :
    x.erasure.run s' = .ok .done (s.advance x.family) := by
  cases call with
  | addTable name keyDef =>
    obtain ⟨k, hk, rfl⟩ := Option.map_eq_some_iff.mp hx
    obtain ⟨_, hadd⟩ := Action.answer?_eq_some_iff.mp hk
    obtain ⟨_, hrun, -⟩ := ActionLaws.map_ok_iff.mp hrun
    cases hadd.symm.trans hrun
    exact ActionLaws.map_ok_iff.mpr ⟨(), addTable_undone hs hadd, rfl⟩
  | addColumn k d =>
    obtain ⟨c, hc, rfl⟩ := Option.map_eq_some_iff.mp hx
    obtain ⟨_, hadd⟩ := Action.answer?_eq_some_iff.mp hc
    obtain ⟨_, hrun, -⟩ := ActionLaws.map_ok_iff.mp hrun
    cases hadd.symm.trans hrun
    exact ActionLaws.map_ok_iff.mpr ⟨(), addColumn_undone hs hadd, rfl⟩
  | createObject k key =>
    obtain ⟨j, hj, rfl⟩ := Option.map_eq_some_iff.mp hx
    obtain ⟨_, hcreate⟩ := Action.answer?_eq_some_iff.mp hj
    obtain ⟨_, hrun, -⟩ := ActionLaws.map_ok_iff.mp hrun
    cases hcreate.symm.trans hrun
    exact ActionLaws.map_ok_iff.mpr ⟨(), createObject_undone hs hlinked hcreate, rfl⟩
  | _ => cases hx

/-- When a call on a store that comes of an empty one has created something under a key, that can be
erased by its key at once. The store is then as it was, but the counter that gave out the key is one
above it. -/
theorem creation_undone (v : SchemaVersion) (turns : List Turn)
    (hs : Turn.afterAll (.new v) turns = s) (room : s.HasRoom) {call : Call} {a : Answer}
    {s' : Store} {x : Key} (hrun : call.run s = .ok a s') (hx : call.issued? s = some x) :
    x.erasure.run s' = .ok .done (s.advance x.family) ∧
      s.counter? x.family = some x.index ∧
      (s.advance x.family).counter? x.family = some (x.index + 1) := by
  have hintact : s.Intact := hs ▸ Turn.afterAll_intact (.new v)
  have hdue : s.counter? x.family = some x.index := Call.due_of_issued? hx
  exact ⟨Call.undone hintact.filled hintact.linked hrun hx, hdue, counter?_advance room hdue⟩

/-- A member who is hired and at once dismissed leaves the team as it was, but for the counter. -/
theorem creation_undone_team :
    ∃ a s', (Call.createObject ⟨1⟩ (some (.int 8))).run teamStore = .ok a s' ∧
      (Key.object ⟨1⟩ ⟨1⟩).erasure.run s' = .ok .done (teamStore.advance (.objects ⟨1⟩)) := by
  have hroom : teamStore.HasRoom := by decide
  have hissued : (Call.createObject ⟨1⟩ (some (.int 8))).issued? teamStore =
      some (.object ⟨1⟩ ⟨1⟩) := by decide +kernel
  obtain ⟨a, s', hrun, -⟩ := Call.run_of_issued? hissued
  have hturns : Turn.afterAll (.new 1) (teamOperations.map .operate) = teamStore := List.foldl_map
  exact ⟨a, s', hrun, (creation_undone 1 _ hturns hroom hrun hissued).1⟩

end Store
end ChangesetReplay
