import ChangesetReplay.Proofs.ImportedStores
import ChangesetReplay.Proofs.SnapshotForms

/-! # Snapshots restore stores

A store is restored from the text of its snapshot, whatever the store that takes it over held
before. The index of primary keys is not in the text: it is built anew from the objects, and comes
out as the one that was kept while the store changed. -/

namespace ChangesetReplay

namespace Table
variable {t : Table}

/-- Consistency does not depend on the index. -/
theorem consistent_written_iff : t.written.Consistent ↔ t.Consistent where
  mp h := ⟨h.columns, h.keyColumn,
    fun k o ho => (h.object k o ho).of_schema rfl rfl rfl (UInt64.le_refl _), h.primaryKey_unique⟩
  mpr h := ⟨h.columns, h.keyColumn,
    fun k o ho => (h.object k o ho).of_schema rfl rfl rfl (UInt64.le_refl _), h.primaryKey_unique⟩

end Table

namespace Snapshot
variable {x : Snapshot}

theorem mem_written {t : Table} : t ∈ x.written.tables ↔ ∃ u ∈ x.tables, u.written = t :=
  List.mem_map

/-- Consistency does not depend on the indexes. -/
theorem consistent_written_iff : x.written.Consistent ↔ x.Consistent := by
  have hnames : x.written.tables.map (·.name) = x.tables.map (·.name) := by
    simp [Snapshot.written, Function.comp_def, Table.written]
  have hkeys : x.written.tables.map (·.key) = x.tables.map (·.key) := by
    simp [Snapshot.written, Function.comp_def, Table.written]
  have hmem : ∀ {t}, t ∈ x.tables → t.written ∈ x.written.tables := List.mem_map_of_mem
  constructor
  · intro h
    refine ⟨h.format_le, hnames ▸ h.names_nodup, hkeys ▸ h.keys_nodup,
      fun t ht => h.key_lt t.written (hmem ht),
      fun t ht => Table.consistent_written_iff.mp (h.table _ (hmem ht)),
      fun t ht c hc target hlink => ?_⟩
    obtain ⟨w, hw, hname⟩ := h.target t.written (hmem ht) c hc target hlink
    obtain ⟨u, hu, rfl⟩ := mem_written.mp hw
    exact ⟨u, hu, hname⟩
  · intro h
    refine ⟨h.format_le, hnames.symm ▸ h.names_nodup, hkeys.symm ▸ h.keys_nodup,
      fun t ht => ?_, fun t ht => ?_, fun t ht c hc target hlink => ?_⟩
    all_goals obtain ⟨u, hu, rfl⟩ := mem_written.mp ht
    · exact h.key_lt u hu
    · exact Table.consistent_written_iff.mpr (h.table u hu)
    · obtain ⟨w, hw, hname⟩ := h.target u hu c hc target hlink
      exact ⟨w.written, hmem hw, hname⟩

/-- The store that a snapshot describes does not depend on the indexes either. -/
theorem store_written (x : Snapshot) : x.written.store = x.store := by
  simp [store, written, Function.comp_def, Table.written, Table.rebuildIndex]

def texts (x : Snapshot) : List String := [x.toText, x.toPrettyText]

/-- Both texts of a snapshot are read as its form. -/
theorem parse?_texts {text : String} (htext : text ∈ x.texts) :
    parse? text = ofJson? .document x.toJson := by
  simp only [texts, List.mem_cons, List.not_mem_nil, or_false] at htext
  rcases htext with rfl | rfl
  · rw [parse?, toText, Json.ofText?_compact x.wellFormed_toJson, Option.bind_eq_bind,
      Option.bind_some]
  · rw [parse?, toPrettyText, Json.ofText?_pretty x.wellFormed_toJson, Option.bind_eq_bind,
      Option.bind_some]

/-- From its texts a consistent snapshot is read, without its indexes, and no other. -/
theorem ofText_texts_iff (hback : x.ReadsBack) {text : String} (htext : text ∈ x.texts)
    {y : Snapshot} : ofText text = .ok y ↔ x.Consistent ∧ x.written = y := by
  have hparse := (parse?_texts htext).trans (ofJson?_toJson hback .document)
  rw [← consistent_written_iff, ← validate_ok_iff]
  cases hvalid : x.written.validate with
  | error e => simp [ofText, hparse, hvalid]
  | ok u => simp [ofText, hparse, hvalid]

/-- A consistent snapshot can be read from both its texts. -/
theorem ofText_texts (h : x.Consistent) (hback : x.ReadsBack) {text : String}
    (htext : text ∈ x.texts) : ofText text = .ok x.written :=
  (ofText_texts_iff hback htext).mpr ⟨h, rfl⟩

end Snapshot

namespace Store
variable {s s' : Store} {x : Snapshot}

/-- A consistent snapshot can be read from both its texts, and the store that it describes is
imported from what is read. -/
theorem restore (h : x.Consistent) (hback : x.ReadsBack) {text : String} (htext : text ∈ x.texts) :
    ∃ y, Snapshot.ofText text = .ok y ∧ ∀ before, importState y before = .ok () x.store := by
  refine ⟨x.written, Snapshot.ofText_texts h hback htext, fun before => ?_⟩
  rw [import_store (Snapshot.consistent_written_iff.mpr h), Snapshot.store_written]

def ReadsBack (s : Store) : Prop :=
  ∀ (k : TableKey) (t : Table), s.tables[k]? = some t → t.ReadsBack

instance (s : Store) : Decidable s.ReadsBack :=
  decidable_of_iff (∀ e ∈ s.tables.toList, e.2.ReadsBack) FiniteMap.forall_toList_iff

theorem ReadsBack.exportState (h : s.ReadsBack) : s.exportState.ReadsBack := by
  intro t ht
  obtain ⟨k, hk⟩ := mem_tableList.mp ht
  exact h k t hk

/-- The snapshot of a sound store describes that store. -/
theorem Sound.store_exportState (h : s.Sound) : s.exportState.store = s :=
  Store.store_exportState h.export_consistent h.named fun k t ht => (h.table k t ht).indexed

/-- A sound store is restored from each text of its snapshot. -/
theorem Sound.restore (h : s.Sound) (hback : s.ReadsBack) {text : String}
    (htext : text ∈ s.exportState.texts) :
    ∃ x, Snapshot.ofText text = .ok x ∧ ∀ before, importState x before = .ok () s := by
  obtain ⟨x, hx, himport⟩ := Store.restore h.export_consistent hback.exportState htext
  exact ⟨x, hx, fun before => h.store_exportState ▸ himport before⟩

/-- A reachable store can be restored from each text of its snapshot, in place of any other store.
So such a text belongs to no other reachable store, and whatever is applied comes to the same with
the restored store. -/
theorem reachable_snapshot_restores {v : SchemaVersion} (h : Reachable v s) (hback : s.ReadsBack) :
    ∀ text ∈ s.exportState.texts, ∃ x, Snapshot.ofText text = .ok x ∧
      (∀ before, importState x before = .ok () s) ∧
      (∀ before restored, importState x before = .ok () restored → ∀ limits c,
        restored.apply limits c = s.apply limits c) ∧
      ∀ w other, Reachable w other → other.ReadsBack → text ∈ other.exportState.texts →
        other = s := by
  intro text htext
  obtain ⟨x, hx, himport⟩ := h.sound.restore hback htext
  have hunique : ∀ before restored, importState x before = .ok () restored → restored = s := by
    intro before restored hr
    rw [himport before] at hr
    exact (EStateM.Result.ok.inj hr).2.symm
  refine ⟨x, hx, himport, fun before restored hr limits c => ?_, fun w other hother hb ht => ?_⟩
  · rw [hunique before restored hr]
  · obtain ⟨y, hy, himport'⟩ := hother.sound.restore hb ht
    have hxy : y = x := Except.ok.inj (hy.symm.trans hx)
    exact hunique (.new w) other (hxy ▸ himport' (.new w))

def scoredTeamOperations : List Operation :=
  teamOperations ++ [.call (.addColumn ⟨1⟩ (.listOf "scores" .float)),
    .call (.listInsert ⟨⟨1⟩, ⟨0⟩, ⟨3⟩⟩ 0 (.float (.infinite true))),
    .call (.listInsert ⟨⟨1⟩, ⟨0⟩, ⟨3⟩⟩ 0 (.float .nan)),
    .call (.listInsert ⟨⟨1⟩, ⟨0⟩, ⟨3⟩⟩ 0
      (.float (.finite true ⟨1022 * Binary64.perExponent, by decide⟩)))]

def scoredTeam : Store := Operation.afterAll (.new 1) scoredTeamOperations

theorem reachable_snapshot_restores_team :
    Reachable 1 scoredTeam ∧ scoredTeam.ReadsBack ∧
      ∃ x, Snapshot.ofText scoredTeam.exportState.toText = .ok x ∧
        importState x (.new 9) = .ok () scoredTeam := by
  have hreach : Reachable 1 scoredTeam := Reaches.refl.afterAll scoredTeamOperations (by decide)
  have hback : scoredTeam.ReadsBack := by decide +kernel
  obtain ⟨x, hx, himport, -⟩ := reachable_snapshot_restores hreach hback _ (List.mem_cons_self ..)
  exact ⟨hreach, hback, x, hx, himport _⟩

end Store

end ChangesetReplay
