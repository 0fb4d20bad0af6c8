import ChangesetReplay.Proofs.FilledStores
import ChangesetReplay.Proofs.SoundTables

/-! # Sound stores

A sound store is filled, its tables are sound, and the keys of its tables are below its counter.
Every change keeps a store sound, as long as no counter is used up; and a sound store is exported as
a consistent snapshot. -/

namespace ChangesetReplay

namespace Store

structure Sound (s : Store) : Prop where
  key_eq : ∀ (k : TableKey) (t : Table), s.tables[k]? = some t → t.key = k
  key_lt : ∀ (k : TableKey) (t : Table), s.tables[k]? = some t → k.index < s.nextTable
  name_unique : ∀ (j k : TableKey) (t u : Table), s.tables[j]? = some t → s.tables[k]? = some u →
    t.name = u.name → j = k
  table : ∀ (k : TableKey) (t : Table), s.tables[k]? = some t → t.Sound
  target : ∀ (k : TableKey) (t : Table), s.tables[k]? = some t → ∀ c ∈ t.columns, ∀ target,
    c.definition.linkTarget = some target → s.HasTable target

/-- No counter has come to its last value. -/
structure HasRoom (s : Store) : Prop where
  table : s.nextTable.toNat + 1 < UInt32.size
  column : ∀ (k : TableKey) (t : Table), s.tables[k]? = some t →
    t.nextColumn.toNat + 1 < UInt32.size
  object : ∀ (k : TableKey) (t : Table), s.tables[k]? = some t →
    t.nextObject.toNat + 1 < UInt64.size

variable {s : Store} {k : TableKey} {t u : Table}

theorem hasRoom_iff : s.HasRoom ↔ s.nextTable.toNat + 1 < UInt32.size ∧
    ∀ t ∈ s.tableList, t.nextColumn.toNat + 1 < UInt32.size ∧
      t.nextObject.toNat + 1 < UInt64.size := by
  constructor
  · intro h
    refine ⟨h.table, fun t ht => ?_⟩
    obtain ⟨k, hk⟩ := mem_tableList.mp ht
    exact ⟨h.column k t hk, h.object k t hk⟩
  · rintro ⟨htable, hall⟩
    exact ⟨htable, fun k t ht => (hall t (mem_tableList.mpr ⟨k, ht⟩)).1,
      fun k t ht => (hall t (mem_tableList.mpr ⟨k, ht⟩)).2⟩

instance : Decidable s.HasRoom := decidable_of_iff _ hasRoom_iff.symm

/-- No counter that is moved from `s` to `s'` had come to its last value. -/
structure RoomFor (s s' : Store) : Prop where
  table : s'.nextTable ≠ s.nextTable → s.nextTable.toNat + 1 < UInt32.size
  column : ∀ (k : TableKey) (t u : Table), s.tables[k]? = some t → s'.tables[k]? = some u →
    u.nextColumn ≠ t.nextColumn → t.nextColumn.toNat + 1 < UInt32.size
  object : ∀ (k : TableKey) (t u : Table), s.tables[k]? = some t → s'.tables[k]? = some u →
    u.nextObject ≠ t.nextObject → t.nextObject.toNat + 1 < UInt64.size

theorem HasRoom.roomFor (h : s.HasRoom) (s' : Store) : s.RoomFor s' where
  table _ := h.table
  column k t _ ht _ _ := h.column k t ht
  object k t _ ht _ _ := h.object k t ht

theorem Sound.named (h : s.Sound) : s.Named := ⟨h.key_eq, h.name_unique⟩

theorem Sound.filled (h : s.Sound) : s.Filled where
  named := h.named
  table k t ht := (h.table k t ht).filled
  target := h.target

theorem Sound.of_filled (h : s.Filled)
    (hlt : ∀ (k : TableKey) (t : Table), s.tables[k]? = some t → k.index < s.nextTable)
    (htable : ∀ (k : TableKey) (t : Table), s.tables[k]? = some t → t.Sound) : s.Sound where
  key_eq := h.named.key_eq
  key_lt := hlt
  name_unique := h.named.name_unique
  table := htable
  target := h.target

/-- One table is replaced by a sound one. -/
theorem Sound.putTable (h : s.Sound) (hfilled : (s.putTable k u).Filled)
    (ht : s.tables[k]? = some t) (hu : u.Sound) : (s.putTable k u).Sound :=
  .of_filled hfilled (forall_putTable h.key_lt (h.key_lt k t ht)) (forall_putTable h.table hu)

/-- Each change of a store keeps it sound, unless a counter runs over. -/
theorem Change.sound_of_roomFor {s' : Store} (hc : Change s s') (h : s.Sound)
    (hroom : s.RoomFor s') : s'.Sound := by
  have hfilled := hc.filled h.filled
  cases hc with
  | addTable name keyDef fresh free =>
    have hmoved : s.nextTable + 1 ≠ s.nextTable := by simp
    have hnext := lt_add_one_of_room (hroom.table hmoved)
    exact .of_filled hfilled
      (forall_putTable (fun j v hv => UInt32.lt_trans (h.key_lt j v hv) hnext) hnext)
      (forall_putTable h.table (.blank _ _ _))
  | eraseTable untargeted =>
    exact .of_filled hfilled (fun j v hv => h.key_lt j v (FiniteMap.erase_eq_some_iff.mp hv).2)
      fun j v hv => h.table j v (FiniteMap.erase_eq_some_iff.mp hv).2
  | @addColumn k t d found valid fresh free target =>
    have hmoved : t.nextColumn + 1 ≠ t.nextColumn := by simp
    have hlast := hroom.column k t _ found tables_putTable_self hmoved
    exact h.putTable hfilled found ((h.table k t found).withColumn valid fresh hlast)
  | @eraseColumn k t column d found defined noKey =>
    exact h.putTable hfilled found ((h.table k t found).dropColumn defined noKey)
  | @createObject k t key found admitted free =>
    have hmoved : t.nextObject + 1 ≠ t.nextObject := by simp
    have hlast := hroom.object k t _ found tables_putTable_self hmoved
    exact h.putTable hfilled found ((h.table k t found).pushObject admitted hlast)
  | @eraseObject k t object found present =>
    have hu := (h.table k t found).dropObject object
    exact .of_filled hfilled (forall_dropLinks (forall_putTable h.key_lt (h.key_lt k t found)))
      (forall_dropLinks fun j w hw =>
        (forall_putTable h.table hu j w hw).dropLinks t.name object)
  | @setScalar f t d o c v place single noKey fits =>
    have ht := h.table _ t place.table
    have hfits := place.scalar_fits ht.filled single fits
    rw [putCell_eq place.table] at hfilled ⊢
    exact h.putTable hfilled place.table (ht.setCell place.column hfits)
  | @editList f t d o l l' place fits =>
    have ht := h.table _ t place.table
    have hfits := place.list_fits ht.filled fits
    rw [putCell_eq place.table] at hfilled ⊢
    exact h.putTable hfilled place.table (ht.setCell place.column hfits)

theorem Change.sound {s' : Store} (hc : Change s s') (h : s.Sound) (hroom : s.HasRoom) :
    s'.Sound := hc.sound_of_roomFor h (hroom.roomFor s')

theorem tableList_nodup {α : Type} {mark : Table → α}
    (h : ∀ (j k : TableKey) (t u : Table), s.tables[j]? = some t → s.tables[k]? = some u →
      mark t = mark u → j = k) : (s.tableList.map mark).Nodup := by
  rw [tableList, List.map_map]
  exact List.pairwise_map.mpr <| FiniteMap.pairwise_toList fun j k t u ht hu hne heq =>
    hne (h j k t u ht hu heq)

/-- The snapshot of a sound store is consistent. -/
theorem Sound.export_consistent (h : s.Sound) : s.exportState.Consistent where
  format_le := UInt32.le_refl _
  names_nodup := tableList_nodup h.name_unique
  keys_nodup := tableList_nodup fun j k t u ht hu heq => by
    rw [← h.key_eq j t ht, ← h.key_eq k u hu, heq]
  key_lt t ht := by
    obtain ⟨k, hk⟩ := mem_tableList.mp ht
    rw [h.key_eq k t hk]
    exact h.key_lt k t hk
  table t ht := by
    obtain ⟨k, hk⟩ := mem_tableList.mp ht
    exact (h.table k t hk).consistent
  target t ht c hc target hlink := by
    obtain ⟨k, hk⟩ := mem_tableList.mp ht
    obtain ⟨j, u, hu, hname⟩ := h.target k t hk c hc target hlink
    exact ⟨u, mem_tableList.mpr ⟨j, hu⟩, hname⟩

end Store
end ChangesetReplay
