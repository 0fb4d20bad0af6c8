import ChangesetReplay.Proofs.SnapshotEquality

/-! # Imports normalize

A snapshot may be of an older format, list its tables in any order, and carry indexes that lead
nowhere. The store that it is imported to exports it in a normal form: the current format, the same
tables in the order of their keys, and the indexes that are built. Importing that, or its text,
gives the store again. So a store has one normal form, whatever snapshot it stems from. -/

namespace ChangesetReplay

namespace Snapshot
variable {x y : Snapshot}

/-- A normal form of a snapshot: it has the same tables, none lost and none merged, in ascending
order of their keys. -/
structure HasNormalForm (x y : Snapshot) : Prop where
  format : y.formatVersion = currentFormat
  schemaVersion : y.schemaVersion = x.schemaVersion
  nextTable : y.nextTable = x.nextTable
  tables : y.tables.Perm x.rebuilt.tables
  ascending : y.tables.Pairwise fun t u => t.key.index < u.key.index

/-- Neither the order of the tables nor the format, among those that are known, makes a difference
to consistency. -/
theorem Consistent.of_perm (h : x.Consistent) (hformat : y.formatVersion ≤ currentFormat)
    (hnext : y.nextTable = x.nextTable) (hperm : y.tables.Perm x.tables) : y.Consistent where
  format_le := hformat
  names_nodup := (hperm.map (·.name)).nodup_iff.mpr h.names_nodup
  keys_nodup := (hperm.map (·.key)).nodup_iff.mpr h.keys_nodup
  key_lt t ht := hnext ▸ h.key_lt t (hperm.mem_iff.mp ht)
  table t ht := h.table t (hperm.mem_iff.mp ht)
  target t ht c hc target hlink := by
    obtain ⟨u, hu, hname⟩ := h.target t (hperm.mem_iff.mp ht) c hc target hlink
    exact ⟨u, hperm.mem_iff.mpr hu, hname⟩

theorem written_rebuilt (x : Snapshot) : x.rebuilt.written = x.written := by
  simp [rebuilt, written, Function.comp_def, Table.written, Table.rebuildIndex]

theorem Consistent.rebuilt (h : x.Consistent) : x.rebuilt.Consistent := by
  rw [← consistent_written_iff, written_rebuilt, consistent_written_iff]
  exact h

/-- The order of the tables makes no difference to the store either. -/
theorem store_eq_of_perm (hx : x.Consistent) (hy : y.Consistent)
    (hschema : y.schemaVersion = x.schemaVersion) (hnext : y.nextTable = x.nextTable)
    (hperm : y.tables.Perm x.tables) : y.store = x.store := by
  have htables : y.store.tables = x.store.tables := by
    refine Std.ExtTreeMap.ext_getElem? fun k => Option.ext fun u => ?_
    rw [tables_store hx, tables_store hy]
    simp only [hperm.mem_iff]
  calc y.store = ⟨y.schemaVersion, y.store.tables, y.nextTable⟩ := rfl
    _ = ⟨x.schemaVersion, x.store.tables, x.nextTable⟩ := by rw [hschema, hnext, htables]

theorem store_rebuilt (x : Snapshot) : x.rebuilt.store = x.store := by
  rw [← store_written x.rebuilt, written_rebuilt, store_written]

/-- The tables of a snapshot are those of its store, each just once. -/
theorem tableList_store (h : x.Consistent) : x.store.tableList.Perm x.rebuilt.tables := by
  have hlisted : (x.store.tableList.map (·.key)).Nodup := by
    refine Store.tableList_nodup fun j k t u ht hu heq => ?_
    rw [← (named_store h).key_eq j t ht, ← (named_store h).key_eq k u hu, heq]
  refine (List.perm_ext_iff_of_nodup hlisted.of_map h.rebuilt.keys_nodup.of_map).mpr fun u => ?_
  rw [Store.mem_tableList, rebuilt, List.mem_map]
  constructor
  · rintro ⟨k, hu⟩
    obtain ⟨t, ht, -, hbuilt⟩ := (tables_store h).mp hu
    exact ⟨t, ht, hbuilt⟩
  · rintro ⟨t, ht, rfl⟩
    exact ⟨t.key, store_table h ht⟩

end Snapshot

namespace Store
variable {x y : Snapshot} {s : Store}

theorem Named.tableList_ascending (h : s.Named) :
    s.tableList.Pairwise fun t u => t.key.index < u.key.index := by
  rw [tableList, List.pairwise_map]
  refine Std.ExtTreeMap.ordered_keys_toList.imp_of_mem ?_
  rintro ⟨j, t⟩ ⟨k, u⟩ ht hu hlt
  rw [h.key_eq j t (Std.ExtTreeMap.mem_toList_iff_getElem?_eq_some.mp ht),
    h.key_eq k u (Std.ExtTreeMap.mem_toList_iff_getElem?_eq_some.mp hu)]
  exact Std.compare_eq_lt.mp hlt

theorem exportState_normal (h : x.Consistent) : x.HasNormalForm x.store.exportState where
  format := rfl
  schemaVersion := rfl
  nextTable := rfl
  tables := Snapshot.tableList_store h
  ascending := (Snapshot.named_store h).tableList_ascending

/-- A normal form describes the same store. -/
theorem store_normal (hx : x.Consistent) (h : x.HasNormalForm y) :
    y.Consistent ∧ y.store = x.store := by
  have hy : y.Consistent := hx.rebuilt.of_perm (h.format ▸ UInt32.le_refl _) h.nextTable h.tables
  refine ⟨hy, ?_⟩
  calc y.store = x.rebuilt.store :=
        Snapshot.store_eq_of_perm hx.rebuilt hy h.schemaVersion h.nextTable h.tables
    _ = x.store := x.store_rebuilt

theorem readsBack_exportState (hx : x.Consistent) (hback : x.ReadsBack) :
    x.store.exportState.ReadsBack := by
  intro u hu
  obtain ⟨t, ht, rfl⟩ := List.mem_map.mp ((Snapshot.tableList_store hx).mem_iff.mp hu)
  exact hback t ht

/-- A snapshot that is accepted is imported to a store which exports a normal form of it. The
normal form is accepted, and it is imported to the same store, directly or through its texts. So is
the snapshot with its tables in any other order. -/
theorem import_normalizes (hvalid : x.validate = .ok ()) :
    ∃ s, (∀ before, importState x before = .ok () s) ∧
      x.HasNormalForm s.exportState ∧ s.exportState.validate = .ok () ∧
      (∀ before, importState s.exportState before = .ok () s) ∧
      (x.ReadsBack → ∀ text ∈ s.exportState.texts, ∃ y, Snapshot.ofText text = .ok y ∧
        ∀ before, importState y before = .ok () s) ∧
      ∀ tables : List Table, tables.Perm x.tables →
        Snapshot.validate { x with tables := tables } = .ok () ∧
          ∀ before, importState { x with tables := tables } before = .ok () s := by
  have hx : x.Consistent := Snapshot.validate_ok_iff.mp hvalid
  have hnormal := exportState_normal hx
  obtain ⟨hexport, hstore⟩ := store_normal hx hnormal
  refine ⟨x.store, import_store hx, hnormal, Snapshot.validate_ok_iff.mpr hexport,
    fun before => importState_ok_iff.mpr ⟨hexport, hstore⟩, fun hback text htext => ?_,
    fun tables hperm => ?_⟩
  · obtain ⟨y, hy, himport⟩ := restore hexport (readsBack_exportState hx hback) htext
    exact ⟨y, hy, fun before => hstore ▸ himport before⟩
  · have hy : Snapshot.Consistent { x with tables := tables } :=
      hx.of_perm hx.format_le rfl hperm
    exact ⟨Snapshot.validate_ok_iff.mpr hy, fun before =>
      importState_ok_iff.mpr ⟨hy, Snapshot.store_eq_of_perm hx hy rfl rfl hperm⟩⟩

def formerTeam : Snapshot :=
  { scoredTeam.exportState.written with
    formatVersion := 0
    tables := scoredTeam.exportState.written.tables.reverse }

theorem import_normalizes_team :
    formerTeam.validate = .ok () ∧ formerTeam.ReadsBack ∧
      formerTeam.store.exportState ≠ formerTeam ∧
      ∃ y, Snapshot.ofText formerTeam.store.exportState.toText = .ok y ∧
        importState y (.new 9) = .ok () formerTeam.store := by
  have hvalid : formerTeam.validate = .ok () := by decide +kernel
  have hback : ∀ t ∈ formerTeam.tables, t.ReadsBack := by decide +kernel
  obtain ⟨s, himport, -, -, -, htexts, -⟩ := import_normalizes hvalid
  cases (importState_ok_iff.mp (himport (.new 9))).2
  obtain ⟨y, hy, hagain⟩ := htexts hback _ (List.mem_cons_self ..)
  exact ⟨hvalid, hback, by decide +kernel, y, hy, hagain _⟩

/-- Accepted snapshots are imported to the same store exactly if they agree in all but the format,
the order of their tables, and the indexes. -/
theorem store_eq_iff (hx : x.Consistent) (hy : y.Consistent) :
    x.store = y.store ↔ x.schemaVersion = y.schemaVersion ∧ x.nextTable = y.nextTable ∧
      x.written.tables.Perm y.written.tables := by
  constructor
  · intro h
    have hlisted : x.rebuilt.tables.Perm y.rebuilt.tables :=
      (h ▸ Snapshot.tableList_store hx).symm.trans (Snapshot.tableList_store hy)
    have hwritten := hlisted.map (·.written)
    refine ⟨congrArg Store.schemaVersion h, congrArg Store.nextTable h, ?_⟩
    rw [← x.written_rebuilt, ← y.written_rebuilt]
    exact hwritten
  · rintro ⟨hschema, hnext, hperm⟩
    rw [← x.store_written, ← y.store_written]
    exact Snapshot.store_eq_of_perm (Snapshot.consistent_written_iff.mpr hy)
      (Snapshot.consistent_written_iff.mpr hx) hschema hnext hperm

end Store
end ChangesetReplay
