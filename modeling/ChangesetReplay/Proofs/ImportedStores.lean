import ChangesetReplay.Proofs.LinkIntegrity
import ChangesetReplay.Proofs.RunPrefix

/-! # Imported stores

What a store is after a snapshot was imported. Validation looks at one table at a time, and at three
places it takes less than the operations of a store give: an object that a link leads to may be
missing, the column named by a key definition need not be able to hold the keys, and its cells need
not hold the keys of their objects. Each of these is carried over just as the snapshot has it. -/

namespace ChangesetReplay

/-- A column of the right name that cannot hold the keys of a definition is misfitted by one of
them. -/
theorem KeyDef.exists_misfit {d : KeyDef} {c : ColumnDef} (hname : c.name = d.column)
    (h : ¬d.HeldBy c) :
    ∃ p : PrimaryKey, (∀ table, d.check table (some p) = .ok ()) ∧
      ¬(Cell.scalar p.toValue).Fits c := by
  -- any key of the right type is one, unless it is only that null is not admitted
  have hkey : c.isList = true ∨ c.type ≠ d.type.valueType → ∃ p : PrimaryKey,
      (∀ table, d.check table (some p) = .ok ()) ∧ ¬(Cell.scalar p.toValue).Fits c := by
    intro hbad
    have hmisfit : ∀ v : Value, v.type? = some d.type.valueType → ¬(Cell.scalar v).Fits c := by
      intro v hv hfits
      rcases hbad with hlist | htype
      · exact Bool.false_ne_true (hfits.shape.trans hlist)
      · have hadmitted := hfits.admitted v (List.mem_singleton.mpr rfl)
        simp [ColumnDef.checkElement, hv, htype.symm] at hadmitted
    obtain ⟨column, type, nullable⟩ := d
    cases type with
    | int => exact ⟨.int 0, fun _ => rfl, hmisfit _ rfl⟩
    | string => exact ⟨.string "", fun _ => rfl, hmisfit _ rfl⟩
  by_cases hlist : c.isList = true
  · exact hkey (.inl hlist)
  by_cases htype : c.type = d.type.valueType
  · have hnull : d.nullable = true ∧ c.nullable = false := by
      by_contra hnone
      exact h ⟨hname, htype, by simpa using hlist, fun hd => by simpa [hd] using hnone⟩
    refine ⟨.null, fun _ => by simp [check, hnull.1], fun hfits => ?_⟩
    have hadmitted := hfits.admitted .null (List.mem_singleton.mpr rfl)
    simp [ColumnDef.checkElement, Value.type?, hnull.2] at hadmitted
  · exact hkey (.inr htype)

namespace Table
variable {t : Table}

def HoldsKeys (t : Table) : Prop := ∀ d, t.keyDef = some d → ∃ c ∈ t.columns, d.HeldBy c.definition

/-- Every object has its primary key in the key column too. -/
def KeyCellsAgree (t : Table) : Prop :=
  ∀ d, t.keyDef = some d → ∀ (k : ObjectKey) (o : Object), t.objects[k]? = some o →
    ∃ p, o.primaryKey = some p ∧ t.value? k d.column = some (.scalar p.toValue)

/-- The index that is built leads from each primary key to the object that has it. -/
theorem keyIndex_rebuildIndex (h : t.Consistent) {p : PrimaryKey} {k : ObjectKey} :
    t.rebuildIndex.keyIndex[p]? = some k ↔
      ∃ o, t.objects[k]? = some o ∧ o.primaryKey = some p := by
  have hdistinct : t.objects.toList.Pairwise fun a b =>
      ∀ p, a.2.primaryKey = some p → b.2.primaryKey ≠ some p :=
    FiniteMap.pairwise_toList fun j k a b ha hb hne p hp hq =>
      hne (h.primaryKey_unique j k a b p ha hb hp hq)
  have hnodup : ((t.objects.toList.filterMap fun e =>
      e.2.primaryKey.map fun p => (p, e.2.key)).map (·.1)).Nodup := by
    rw [List.Nodup, List.pairwise_map, List.pairwise_filterMap]
    refine hdistinct.imp fun {a b} hab e he e' he' heq => ?_
    obtain ⟨p, hp, rfl⟩ := Option.map_eq_some_iff.mp he
    obtain ⟨q, hq, rfl⟩ := Option.map_eq_some_iff.mp he'
    cases heq
    exact hab p hp hq
  refine (FiniteMap.ofList_eq_some_iff hnodup).trans ?_
  simp only [List.mem_filterMap, Option.map_eq_some_iff, Prod.mk.injEq, Prod.exists,
    Std.ExtTreeMap.mem_toList_iff_getElem?_eq_some]
  constructor
  · rintro ⟨j, o, ho, q, hq, rfl, rfl⟩
    exact ⟨o, (h.object j o ho).key_eq ▸ ho, hq⟩
  · rintro ⟨o, ho, hq⟩
    exact ⟨k, o, ho, p, hq, rfl, (h.object k o ho).key_eq⟩

/-- An index that leads from each primary key to the object that has it is the one that is built. -/
theorem rebuildIndex_eq (h : t.Consistent) (hindexed : t.Indexed) : t.rebuildIndex = t := by
  have hindex : t.rebuildIndex.keyIndex = t.keyIndex := by
    refine Std.ExtTreeMap.ext_getElem? fun p => Option.ext fun k => ?_
    rw [keyIndex_rebuildIndex h, hindexed p k]
  calc t.rebuildIndex = { t with keyIndex := t.rebuildIndex.keyIndex } := rfl
    _ = t := by rw [hindex]

theorem sound_rebuildIndex_iff (h : t.Consistent) : t.rebuildIndex.Sound ↔ t.HoldsKeys := by
  constructor
  · exact fun hs => hs.keyColumn
  · intro hk
    exact ⟨h.columns, hk, fun k o ho => (h.object k o ho).of_schema rfl rfl rfl (UInt64.le_refl _),
      fun p k => keyIndex_rebuildIndex h⟩

end Table

namespace Snapshot
variable {x : Snapshot}

def store (x : Snapshot) : Store :=
  ⟨x.schemaVersion, .ofList (x.tables.map fun t => (t.key, t.rebuildIndex)), x.nextTable⟩

def Linked (x : Snapshot) : Prop :=
  ∀ t ∈ x.tables, ∀ target y, t.LinksTo target y → ∃ u ∈ x.tables, u.name = target ∧ y ∈ u.objects

theorem tables_store (h : x.Consistent) {k : TableKey} {u : Table} :
    x.store.tables[k]? = some u ↔ ∃ t ∈ x.tables, t.key = k ∧ t.rebuildIndex = u := by
  have hnodup : ((x.tables.map fun t => (t.key, t.rebuildIndex)).map (·.1)).Nodup := by
    simpa [Function.comp_def] using h.keys_nodup
  refine (FiniteMap.ofList_eq_some_iff hnodup).trans ?_
  simp only [List.mem_map, Prod.mk.injEq]

theorem store_table (h : x.Consistent) {t : Table} (ht : t ∈ x.tables) :
    x.store.tables[t.key]? = some t.rebuildIndex := (tables_store h).mpr ⟨t, ht, rfl, rfl⟩

theorem hasTable_store (h : x.Consistent) {name : String} :
    x.store.HasTable name ↔ ∃ t ∈ x.tables, t.name = name := by
  constructor
  · rintro ⟨k, u, hu, rfl⟩
    obtain ⟨t, ht, -, rfl⟩ := (tables_store h).mp hu
    exact ⟨t, ht, rfl⟩
  · rintro ⟨t, ht, rfl⟩
    exact ⟨t.key, t.rebuildIndex, store_table h ht, rfl⟩

theorem named_store (h : x.Consistent) : x.store.Named := by
  refine ⟨fun k u hu => ?_, fun j k v w hv hw hname => ?_⟩
  · obtain ⟨t, ht, rfl, rfl⟩ := (tables_store h).mp hu
    rfl
  · obtain ⟨t, ht, rfl, rfl⟩ := (tables_store h).mp hv
    obtain ⟨t', ht', rfl, rfl⟩ := (tables_store h).mp hw
    exact congrArg Table.key (List.inj_on_of_nodup_map h.names_nodup ht ht' hname)

/-- The store of a consistent snapshot lacks nothing for soundness but columns that can hold the
keys. -/
theorem sound_store_iff (h : x.Consistent) : x.store.Sound ↔ ∀ t ∈ x.tables, t.HoldsKeys := by
  constructor
  · intro hs t ht
    exact (Table.sound_rebuildIndex_iff (h.table t ht)).mp (hs.table _ _ (store_table h ht))
  · intro hk
    refine ⟨(named_store h).key_eq, fun k u hu => ?_, (named_store h).name_unique,
      fun k u hu => ?_, fun k u hu c hc target hlink => ?_⟩
    · obtain ⟨t, ht, rfl, rfl⟩ := (tables_store h).mp hu
      exact h.key_lt t ht
    · obtain ⟨t, ht, rfl, rfl⟩ := (tables_store h).mp hu
      exact (Table.sound_rebuildIndex_iff (h.table t ht)).mpr (hk t ht)
    · obtain ⟨t, ht, rfl, rfl⟩ := (tables_store h).mp hu
      exact (hasTable_store h).mpr (h.target t ht c hc target hlink)

end Snapshot

namespace Store
variable {x : Snapshot} {s s' : Store} {k : TableKey} {t u : Table}

/-- The snapshot of a store describes that store, if it is consistent and the indexes are those that
are built. -/
theorem store_exportState (hx : s.exportState.Consistent) (hs : s.Named)
    (hindexed : ∀ (k : TableKey) (t : Table), s.tables[k]? = some t → t.Indexed) :
    s.exportState.store = s := by
  have hsame : ∀ {k : TableKey} {t : Table}, s.tables[k]? = some t → t.rebuildIndex = t := by
    intro k t ht
    exact Table.rebuildIndex_eq (hx.table t (mem_tableList.mpr ⟨k, ht⟩)) (hindexed k t ht)
  have htables : s.exportState.store.tables = s.tables := by
    refine Std.ExtTreeMap.ext_getElem? fun k => Option.ext fun t => ?_
    rw [Snapshot.tables_store hx]
    constructor
    · rintro ⟨u, hu, rfl, rfl⟩
      obtain ⟨k, hk⟩ := mem_tableList.mp hu
      rw [hsame hk, hs.key_eq k u hk]
      exact hk
    · intro ht
      exact ⟨t, mem_tableList.mpr ⟨k, ht⟩, hs.key_eq k t ht, hsame ht⟩
  calc s.exportState.store = { s with tables := s.exportState.store.tables } := rfl
    _ = s := by rw [htables]

/-- An import succeeds on the consistent snapshots, and forgets what the store held before. -/
theorem importState_ok_iff {r : Unit} :
    importState x s = .ok r s' ↔ x.Consistent ∧ x.store = s' := by
  simp only [importState, ActionLaws.read_bind_ok_iff, Snapshot.validate_ok_iff.symm,
    ActionLaws.modify_bind, ActionLaws.modify_ok_iff]
  constructor
  · rintro ⟨⟨⟩, hvalid, rfl⟩
    exact ⟨hvalid, rfl⟩
  · rintro ⟨hvalid, rfl⟩
    exact ⟨(), hvalid, rfl⟩

theorem import_store (h : x.Consistent) (before : Store) :
    importState x before = .ok () x.store := importState_ok_iff.mpr ⟨h, rfl⟩

theorem hasObject_store (h : x.Consistent) {name : String} {y : ObjectKey} :
    x.store.HasObject name y ↔ ∃ t ∈ x.tables, t.name = name ∧ y ∈ t.objects := by
  constructor
  · rintro ⟨k, u, hu, rfl, hy⟩
    obtain ⟨t, ht, -, rfl⟩ := (Snapshot.tables_store h).mp hu
    exact ⟨t, ht, rfl, hy⟩
  · rintro ⟨t, ht, rfl, hy⟩
    exact ⟨t.key, t.rebuildIndex, Snapshot.store_table h ht, rfl, hy⟩

/-- After an import every link leads to a table that is there. That the object is there too is left
to the snapshot: no link is left dangling exactly if none dangles in the snapshot. -/
theorem imported_links (h : importState x s = .ok () s') :
    (∀ (k : TableKey) (t : Table), s'.tables[k]? = some t → ∀ target y, t.LinksTo target y →
      s'.HasTable target) ∧ (s'.Linked ↔ x.Linked) := by
  obtain ⟨hx, rfl⟩ := importState_ok_iff.mp h
  refine ⟨fun k u hu target y hy => ?_, fun hs t ht target y hy => ?_,
    fun hs k u hu target y hy => ?_⟩
  · obtain ⟨t, ht, rfl, rfl⟩ := (Snapshot.tables_store hx).mp hu
    obtain ⟨c, hc, hlink, -⟩ := hy
    exact (Snapshot.hasTable_store hx).mpr (hx.target t ht c hc target hlink)
  · exact (hasObject_store hx).mp (hs _ _ (Snapshot.store_table hx ht) target y hy)
  · obtain ⟨t, ht, rfl, rfl⟩ := (Snapshot.tables_store hx).mp hu
    exact (hasObject_store hx).mpr (hs t ht target y hy)

theorem Linked.exportState (h : s.Linked) : s.exportState.Linked := by
  intro t ht target y hy
  obtain ⟨k, hk⟩ := mem_tableList.mp ht
  obtain ⟨j, u, hu, hname, hmem⟩ := h k t hk target y hy
  exact ⟨u, mem_tableList.mpr ⟨j, hu⟩, hname, hmem⟩

theorem import_team :
    importState teamStore.exportState (.new 0) = .ok () teamStore.exportState.store :=
  import_store teamStore_reachable.sound.export_consistent _

theorem imported_links_team :
    importState teamStore.exportState (.new 0) = .ok () teamStore.exportState.store ∧
      teamStore.exportState.store.Linked :=
  ⟨import_team, (imported_links import_team).2.mpr teamStore_reachable.linked.2.exportState⟩

/-- A dog whose owner is not there. -/
def strayDog : Snapshot :=
  let dog : Object := ⟨⟨0⟩, none, .ofList [((⟨0⟩ : ColumnKey), Cell.scalar (.link ⟨5⟩))]⟩
  let dogs : Table :=
    ⟨⟨1⟩, "dogs", none, [⟨⟨0⟩, .linkTo "owner" "people"⟩], .ofList [(dog.key, dog)], 1, 1, ∅⟩
  ⟨1, 1, 2, [.blank ⟨0⟩ "people" none, dogs]⟩

theorem strayDog_dangles :
    importState strayDog (.new 0) = .ok () strayDog.store ∧
      strayDog.store.scalar ⟨⟨1⟩, ⟨0⟩, ⟨0⟩⟩ = .ok (.link ⟨5⟩) ∧
      strayDog.store.containsObject ⟨0⟩ ⟨5⟩ = .ok false ∧ ¬strayDog.store.Linked := by
  have himport : importState strayDog (.new 0) = .ok () strayDog.store := by rfl
  refine ⟨himport, by rfl, by rfl, fun hlinked => ?_⟩
  obtain ⟨hx, -⟩ := importState_ok_iff.mp himport
  obtain ⟨t, ht, hname, hmem⟩ := (hasObject_store hx).mp <|
    hlinked ⟨1⟩ _ (by rfl) "people" ⟨5⟩ ⟨⟨⟨0⟩, .linkTo "owner" "people"⟩, by decide, by rfl, ⟨0⟩, _,
      .scalar (.link ⟨5⟩), by rfl, by rfl, by decide⟩
  rcases List.mem_cons.mp ht with rfl | ht
  · exact absurd hmem (by decide)
  · cases List.mem_singleton.mp ht
    exact absurd hname (by decide)

theorem Reaches.call {start : Store} {call : Call} {a : Answer} (h : start.Reaches s)
    (hroom : s.HasRoom) (hrun : call.run s = .ok a s') : start.Reaches s' := by
  have hafter := h.step (.call call) hroom
  simpa only [Operation.after, hrun] using hafter

/-- Applying a changeset is a run too, whether it is applied in full, in part or not at all. -/
theorem Reaches.apply {start : Store} (h : start.Reaches s) (limits : Limits) {c : Changeset}
    (hroom : ∀ m < c.instructions.length, (s.trail (c.upTo m)).progress.store.HasRoom) :
    start.Reaches (s.apply limits c).store := by
  cases hcheck : Replay.check limits c s with
  | error e => simpa only [Store.apply, hcheck] using h
  | ok u =>
    rw [apply_of_check hcheck]
    refine Reaches.run (p := ⟨s, []⟩) h fun m hm => ?_
    simpa only [trail_upTo] using hroom m hm

theorem HasRoom.of_counters (h : s.HasRoom) (hnext : s'.nextTable = s.nextTable)
    (hold : ∀ (j : TableKey) (v : Table), s'.tables[j]? = some v →
      ∃ w, s.tables[j]? = some w ∧ v.nextColumn = w.nextColumn ∧ v.nextObject = w.nextObject) :
    s'.HasRoom where
  table := hnext ▸ h.table
  column j v hv := by
    obtain ⟨w, hw, hcolumn, -⟩ := hold j v hv
    exact hcolumn ▸ h.column j w hw
  object j v hv := by
    obtain ⟨w, hw, -, hobject⟩ := hold j v hv
    exact hobject ▸ h.object j w hw

structure FreeFor (t : Table) (p : PrimaryKey) : Prop where
  next : ⟨t.nextObject⟩ ∉ t.objects
  key : p ∉ t.keyIndex

/-- A primary key can be freed, by erasing the object that has it. -/
theorem reaches_free (hx : x.Consistent) (hroom : x.store.HasRoom) (ht : t ∈ x.tables)
    (p : PrimaryKey) :
    ∃ s u, x.store.Reaches s ∧ s.HasRoom ∧ s.tables[t.key]? = some u ∧ u.columns = t.columns ∧
      u.keyDef = t.keyDef ∧ u.name = t.name ∧ FreeFor u p := by
  have hfound := Snapshot.store_table hx ht
  have hnext : (⟨t.nextObject⟩ : ObjectKey) ∉ t.objects := by
    intro hmem
    obtain ⟨o, ho⟩ := FiniteMap.mem_iff_exists.mp hmem
    exact absurd ((hx.table t ht).object _ o ho).key_lt (UInt64.lt_irrefl _)
  by_cases hp : p ∈ t.rebuildIndex.keyIndex
  · obtain ⟨j, hj⟩ := FiniteMap.mem_iff_exists.mp hp
    obtain ⟨o, ho, hkey⟩ := (Table.keyIndex_rebuildIndex (hx.table t ht)).mp hj
    have hmem : j ∈ t.objects := FiniteMap.mem_iff_exists.mpr ⟨o, ho⟩
    have herase : (Call.eraseObject t.key j).run x.store = .ok .done
        ((x.store.putTable t.key (t.rebuildIndex.dropObject j)).dropLinks t.name j) :=
      ActionLaws.map_ok_iff.mpr ⟨(), eraseObject_ok_iff.mpr ⟨_, hfound, hmem, rfl⟩, rfl⟩
    refine ⟨_, (t.rebuildIndex.dropObject j).dropLinks t.name j, Reaches.refl.call hroom herase,
      hroom.of_counters rfl ?_, ?_, rfl, rfl, rfl, ?_, ?_⟩
    · intro i v hv
      rw [tables_dropLinks] at hv
      obtain ⟨w, hw, rfl⟩ := Option.map_eq_some_iff.mp hv
      rcases tables_putTable.mp hw with ⟨rfl, rfl⟩ | ⟨-, hw⟩
      · exact ⟨_, hfound, rfl, rfl⟩
      · exact ⟨w, hw, rfl, rfl⟩
    · rw [tables_dropLinks, tables_putTable_self]
      rfl
    · simpa [Table.dropLinks, Table.mapObjects, Table.dropObject, Table.rebuildIndex] using
        fun _ => hnext
    · intro hmem
      obtain ⟨i, hi⟩ := FiniteMap.mem_iff_exists.mp hmem
      exact (Table.keyIndex_dropObject.mp hi).1 o ho hkey
  · exact ⟨x.store, t.rebuildIndex, .refl, hroom, hfound, rfl, rfl, rfl, hnext, hp⟩

/-- Where a key column cannot hold all keys, an object can be created under one that it cannot
hold. -/
theorem reaches_misfit (hx : x.Consistent) (hroom : x.store.HasRoom) (ht : t ∈ x.tables)
    (hnot : ¬t.HoldsKeys) : ∃ s, x.store.Reaches s ∧ s.exportState.validate ≠ .ok () := by
  obtain ⟨d, hd, hno⟩ : ∃ d, t.keyDef = some d ∧ ∀ c ∈ t.columns, ¬d.HeldBy c.definition := by
    simpa [Table.HoldsKeys] using hnot
  obtain ⟨c, hc, hname⟩ := (hx.table t ht).keyColumn d hd
  obtain ⟨p, hcheck, hmisfit⟩ := KeyDef.exists_misfit hname (hno c hc)
  obtain ⟨s, u, hreach, hroom, hu, hcolumns, hkeyDef, -, hfree⟩ := reaches_free hx hroom ht p
  have hadmitted : checkNewKey u (some p) = .ok () := by
    refine checkNewKey_ok_iff.mpr ⟨fun d' hd' => ?_, fun hnone => ?_, fun k hk => ?_⟩
    · cases hd.symm.trans (hkeyDef.symm.trans hd')
      exact hcheck u.name
    · cases hd.symm.trans (hkeyDef.symm.trans hnone)
    · cases hk
      exact hfree.key
  have hcreate : (Call.createObject t.key (some p)).run s = .ok (.object ⟨u.nextObject⟩)
      (s.putTable t.key (u.pushObject (some p)).2) :=
    ActionLaws.map_ok_iff.mpr
      ⟨_, createObject_ok_iff.mpr ⟨u, hu, hadmitted, hfree.next, rfl, rfl⟩, rfl⟩
  refine ⟨_, hreach.call hroom hcreate, fun hvalid => hmisfit ?_⟩
  have htable := (Snapshot.validate_ok_iff.mp hvalid).table (u.pushObject (some p)).2
    (mem_tableList.mpr ⟨t.key, tables_putTable_self⟩)
  have hobject := htable.object ⟨u.nextObject⟩ _ (Table.objects_pushObject.mpr (.inl ⟨rfl, rfl⟩))
  have hc : c ∈ u.columns := hcolumns ▸ hc
  obtain ⟨cell, hcell, hfits⟩ := hobject.cell c hc
  have hkeyColumn := Table.isKeyColumn_iff.mpr ⟨d, hkeyDef.trans hd, hname.symm⟩
  have hkeys : (u.columns.map (·.key)).Nodup := hcolumns ▸ (hx.table t ht).columns.keys_nodup
  have hnew : (u.newFields (some p))[c.key]? = some (.scalar p.toValue) := by
    rw [Table.newFields_getElem? hkeys hc, Table.newCell, if_pos hkeyColumn]
  cases hnew.symm.trans hcell
  exact hfits

/-- What an imported store comes to can always be exported and imported again if the key columns of
the snapshot can hold the keys of their tables, and only then. -/
theorem imported_stays_importable (h : importState x s = .ok () s') :
    ((∀ t ∈ x.tables, t.HoldsKeys) →
      ∀ s'', s'.Reaches s'' → s''.exportState.validate = .ok ()) ∧
    (s'.HasRoom → (∀ s'', s'.Reaches s'' → s''.exportState.validate = .ok ()) →
      ∀ t ∈ x.tables, t.HoldsKeys) := by
  obtain ⟨hx, rfl⟩ := importState_ok_iff.mp h
  constructor
  · intro hk s'' hreach
    have hs : s''.Sound := hreach.invariant ((Snapshot.sound_store_iff hx).mpr hk)
      fun hs room hchange => hchange.sound hs room
    exact Snapshot.validate_ok_iff.mpr hs.export_consistent
  · intro hroom hall t ht
    by_contra hnot
    obtain ⟨s'', hreach, hinvalid⟩ := reaches_misfit hx hroom ht hnot
    exact hinvalid (hall s'' hreach)

def replacePerson : Changeset :=
  ⟨1, ["people"], "", [.selectTable ⟨0⟩, .createObject (some (.int 8)),
    .eraseObject (.primaryKey (.int 7))]⟩

theorem imported_stays_importable_team :
    importState teamStore.exportState (.new 0) = .ok () teamStore.exportState.store ∧
      ∃ s, s = (teamStore.exportState.store.apply .standard replacePerson).store ∧
        s.exportState.validate = .ok () ∧ s.findObject ⟨1⟩ (.int 7) = .ok none ∧
        s.findObject ⟨1⟩ (.int 8) = .ok (some ⟨1⟩) := by
  have hkeys : ∀ t ∈ teamStore.exportState.tables, t.HoldsKeys := by
    intro t ht
    obtain ⟨k, hk⟩ := mem_tableList.mp ht
    exact (teamStore_reachable.sound.table k t hk).keyColumn
  have hreach : teamStore.exportState.store.Reaches
      (teamStore.exportState.store.apply .standard replacePerson).store :=
    Reaches.refl.apply .standard (by decide)
  exact ⟨import_team, _, rfl, (imported_stays_importable import_team).1 hkeys _ hreach, by rfl,
    by rfl⟩

/-- A table whose numbers are to stand in a column of strings. -/
def mistypedKeys : Snapshot :=
  let people : Table :=
    ⟨⟨0⟩, "people", some ⟨"id", .int, false⟩, [⟨⟨0⟩, .required "id" .string⟩], ∅, 1, 0, ∅⟩
  ⟨1, 1, 1, [people]⟩

theorem mistypedKeys_unimportable :
    importState mistypedKeys (.new 0) = .ok () mistypedKeys.store ∧ mistypedKeys.store.HasRoom ∧
      ∃ s, mistypedKeys.store.Reaches s ∧ s.exportState.validate = .error (.invalidSnapshot
        "table people: obj#0: type mismatch for field 'id': expected String, got Int") :=
  ⟨by rfl, by decide, _, Reaches.refl.step (.call (.createObject ⟨0⟩ (some (.int 7)))) (by decide),
    by rfl⟩

/-- Every object of a keyed table has, in the key column, the primary key under which it is
found. -/
def KeyCellsAgree (s : Store) : Prop :=
  ∀ (k : TableKey) (t : Table), s.tables[k]? = some t → ∀ d, t.keyDef = some d → ∀ j ∈ t.objects,
    ∃ p, s.findObject k p = .ok (some j) ∧ t.value? j d.column = some (.scalar p.toValue)

theorem findObject_some_iff {p : PrimaryKey} {j : ObjectKey} :
    s.findObject k p = .ok (some j) ↔ ∃ t, s.tables[k]? = some t ∧ t.keyIndex[p]? = some j := by
  simp [findObject, table_ok_iff, Table.find?]

/-- In an imported store an object is found under its primary key. -/
theorem findObject_store (hx : x.Consistent) (ht : t ∈ x.tables) {j : ObjectKey} {o : Object}
    (ho : t.objects[j]? = some o) (p : PrimaryKey) :
    x.store.findObject t.key p = .ok (some j) ↔ o.primaryKey = some p := by
  rw [findObject_some_iff]
  constructor
  · rintro ⟨u, hu, hj⟩
    cases (Snapshot.store_table hx ht).symm.trans hu
    obtain ⟨o', ho', hp⟩ := (Table.keyIndex_rebuildIndex (hx.table t ht)).mp hj
    cases ho.symm.trans ho'
    exact hp
  · intro hp
    exact ⟨_, Snapshot.store_table hx ht,
      (Table.keyIndex_rebuildIndex (hx.table t ht)).mpr ⟨o, ho, hp⟩⟩

/-- A column that is there by its name has a cell in each object. -/
theorem value?_of_column {name : String} {j : ObjectKey} {o : Object} (h : t.Consistent)
    (ho : t.objects[j]? = some o) (hc : ∃ c ∈ t.columns, c.definition.name = name) :
    ∃ cell, t.value? j name = some cell := by
  obtain ⟨c, hc⟩ : ∃ c, t.column? name = some c := by
    refine Option.ne_none_iff_exists'.mp fun hnone => ?_
    obtain ⟨c, hc, hname⟩ := hc
    exact Table.column?_eq_none_iff.mp hnone c hc hname
  obtain ⟨cell, hcell, -⟩ := (h.object j o ho).cell c (List.mem_of_find?_eq_some hc)
  exact ⟨cell, by simp [Table.value?, hc, ho, hcell]⟩

/-- After an import every object of a keyed table is found under its primary key, which is admitted,
and under no other; and it has a cell in the key column. That the cell holds the primary key is left
to the snapshot: it does for all objects exactly if it does in the snapshot. -/
theorem imported_key_columns (h : importState x s = .ok () s') :
    (∀ (k : TableKey) (t : Table), s'.tables[k]? = some t → ∀ d, t.keyDef = some d →
      ∀ (j : ObjectKey) (o : Object), t.objects[j]? = some o →
        (∃ p, o.primaryKey = some p ∧ d.check t.name (some p) = .ok ()) ∧
        (∀ p, s'.findObject k p = .ok (some j) ↔ o.primaryKey = some p) ∧
        ∃ cell, t.value? j d.column = some cell) ∧
    (s'.KeyCellsAgree ↔ ∀ t ∈ x.tables, t.KeyCellsAgree) := by
  obtain ⟨hx, rfl⟩ := importState_ok_iff.mp h
  refine ⟨fun k u hu d hd j o ho => ?_, fun hs t ht d hd j o ho => ?_,
    fun hs k u hu d hd j hj => ?_⟩
  · obtain ⟨t, ht, rfl, rfl⟩ := (Snapshot.tables_store hx).mp hu
    have hcheck := ((hx.table t ht).object j o ho).keyed d hd
    refine ⟨?_, findObject_store hx ht ho,
      value?_of_column (t := t) (hx.table t ht) ho ((hx.table t ht).keyColumn d hd)⟩
    cases hp : o.primaryKey with
    | none => simp [KeyDef.check, hp] at hcheck
    | some p => exact ⟨p, rfl, hp ▸ hcheck⟩
  · have hmem : j ∈ t.objects := Std.ExtTreeMap.mem_iff_isSome_getElem?.mpr (by simp [ho])
    obtain ⟨p, hfound, hcell⟩ := hs t.key _ (Snapshot.store_table hx ht) d hd j hmem
    exact ⟨p, (findObject_store hx ht ho p).mp hfound, hcell⟩
  · obtain ⟨t, ht, rfl, rfl⟩ := (Snapshot.tables_store hx).mp hu
    obtain ⟨o, ho⟩ := Option.isSome_iff_exists.mp (Std.ExtTreeMap.mem_iff_isSome_getElem?.mp hj)
    obtain ⟨p, hp, hcell⟩ := hs t ht d hd j o ho
    exact ⟨p, (findObject_store hx ht ho p).mpr hp, hcell⟩

/-- A person who is found under 7 but has 8 in the key column. -/
def splitKey : Snapshot :=
  let person : Object := ⟨⟨0⟩, some (.int 7), .ofList [((⟨0⟩ : ColumnKey), Cell.scalar (.int 8))]⟩
  ⟨1, 1, 1, [⟨⟨0⟩, "people", some ⟨"id", .int, false⟩, [⟨⟨0⟩, .required "id" .int⟩],
    .ofList [((⟨0⟩ : ObjectKey), person)], 1, 1, ∅⟩]⟩

theorem import_splitKey : importState splitKey (.new 0) = .ok () splitKey.store := by rfl

theorem imported_key_columns_split :
    importState splitKey (.new 0) = .ok () splitKey.store ∧
      splitKey.store.findObject ⟨0⟩ (.int 7) = .ok (some ⟨0⟩) := by
  obtain ⟨-, hfound, -⟩ :=
    (imported_key_columns import_splitKey).1 ⟨0⟩ _ (by rfl) _ (by rfl) ⟨0⟩ _ (by rfl)
  exact ⟨import_splitKey, (hfound (.int 7)).mpr rfl⟩

theorem splitKey_disagrees :
    importState splitKey (.new 0) = .ok () splitKey.store ∧
      splitKey.store.findObject ⟨0⟩ (.int 7) = .ok (some ⟨0⟩) ∧
      splitKey.store.scalar ⟨⟨0⟩, ⟨0⟩, ⟨0⟩⟩ = .ok (.int 8) ∧ ¬splitKey.store.KeyCellsAgree := by
  refine ⟨import_splitKey, by rfl, by rfl, fun hagree => ?_⟩
  obtain ⟨p, hfound, hcell⟩ := hagree ⟨0⟩ _ (by rfl) _ (by rfl) ⟨0⟩ (by decide)
  obtain ⟨u, hu, hindex⟩ := findObject_some_iff.mp hfound
  cases p with
  | int n =>
    cases hcell
    cases hu
    cases hindex
  | null => cases hcell
  | string str => cases hcell

end Store
end ChangesetReplay
