import ChangesetReplay.Proofs.SnapshotRoundTrip
import ChangesetReplay.Proofs.StoreHistories
import Mathlib.Data.List.Forall2

/-! # Equality of snapshots

Two snapshots are the same when they agree field by field, down to the values in the cells and the
indexes of primary keys. What is read from the text of a snapshot has no indexes: these are left to
the import. So it is the same as the snapshot once its indexes are built, and before that only where
there is nothing to be found by a primary key. -/

namespace ChangesetReplay

/-- Equality of numbers: NaN is not equal to itself, and zero is equal to its negative. -/
def Binary64.Same : Binary64 → Binary64 → Prop
  | .infinite a, .infinite b => a = b
  | .finite a m, .finite b n => m = n ∧ (a = b ∨ m = default)
  | _, _ => False

theorem Binary64.same_self_iff {x : Binary64} : x.Same x ↔ x ≠ .nan := by
  cases x with
  | nan => exact iff_of_false id fun hne => hne rfl
  | infinite negative => exact iff_of_true rfl fun heq => by cases heq
  | finite negative rank => exact iff_of_true ⟨rfl, .inl rfl⟩ fun heq => by cases heq

namespace Value

def Same : Value → Value → Prop
  | .float x, .float y => x.Same y
  | v, w => v = w

theorem same_self_iff {v : Value} : v.Same v ↔ v ≠ .float .nan := by
  cases v with
  | float x => exact Binary64.same_self_iff.trans (not_congr (by rw [float.injEq]))
  | _ => exact iff_of_true rfl fun heq => by cases heq

end Value

namespace Cell

def Same : Cell → Cell → Prop
  | .scalar v, .scalar w => v.Same w
  | .list l, .list m => List.Forall₂ Value.Same l m
  | _, _ => False

def NaNFree (c : Cell) : Prop := .float .nan ∉ c.values

instance (c : Cell) : Decidable c.NaNFree := inferInstanceAs (Decidable (¬_))

theorem same_self_iff {c : Cell} : c.Same c ↔ c.NaNFree := by
  cases c with
  | scalar v =>
    refine Value.same_self_iff.trans (not_congr ?_)
    simp only [values, List.mem_singleton, eq_comm]
  | list l =>
    refine List.forall₂_same.trans ?_
    simp only [Value.same_self_iff, NaNFree, values]
    exact ⟨fun h hmem => h _ hmem rfl, fun h v hv heq => h (heq ▸ hv)⟩

end Cell

/-- The same keys, and under each of them what is the same in the sense of `R`. -/
def FiniteMap.Same {α β : Type} [Ord α] [Std.TransOrd α] (R : β → β → Prop)
    (m m' : Std.ExtTreeMap α β) : Prop :=
  List.Forall₂ (fun e e' => e.1 = e'.1 ∧ R e.2 e'.2) m.toList m'.toList

theorem FiniteMap.same_self_iff {α β : Type} [Ord α] [Std.TransOrd α] [Std.LawfulEqOrd α]
    {R : β → β → Prop} {m : Std.ExtTreeMap α β} :
    Same R m m ↔ ∀ (k : α) (v : β), m[k]? = some v → R v v := by
  refine List.forall₂_same.trans ?_
  simp only [true_and]
  exact forall_toList_iff (p := fun v => R v v)

namespace Object

structure Same (o p : Object) : Prop where
  key : o.key = p.key
  primaryKey : o.primaryKey = p.primaryKey
  fields : FiniteMap.Same Cell.Same o.fields p.fields

def NaNFree (o : Object) : Prop := ∀ (k : ColumnKey) (c : Cell), o.fields[k]? = some c → c.NaNFree

instance (o : Object) : Decidable o.NaNFree :=
  decidable_of_iff (∀ e ∈ o.fields.toList, e.2.NaNFree) FiniteMap.forall_toList_iff

theorem same_self_iff {o : Object} : o.Same o ↔ o.NaNFree := by
  have hfields : FiniteMap.Same Cell.Same o.fields o.fields ↔ o.NaNFree := by
    simp only [FiniteMap.same_self_iff, Cell.same_self_iff, NaNFree]
  exact ⟨fun h => hfields.mp h.fields, fun h => ⟨rfl, rfl, hfields.mpr h⟩⟩

end Object

namespace Table
variable {t : Table}

structure Same (t u : Table) : Prop where
  key : t.key = u.key
  name : t.name = u.name
  keyDef : t.keyDef = u.keyDef
  columns : t.columns = u.columns
  objects : FiniteMap.Same Object.Same t.objects u.objects
  nextColumn : t.nextColumn = u.nextColumn
  nextObject : t.nextObject = u.nextObject
  keyIndex : t.keyIndex = u.keyIndex

def NaNFree (t : Table) : Prop := ∀ (k : ObjectKey) (o : Object), t.objects[k]? = some o → o.NaNFree

instance (t : Table) : Decidable t.NaNFree :=
  decidable_of_iff (∀ e ∈ t.objects.toList, e.2.NaNFree) FiniteMap.forall_toList_iff

/-- Tables that differ in their indexes at most. -/
theorem same_reindexed_iff {index index' : Std.ExtTreeMap PrimaryKey ObjectKey} :
    Same { t with keyIndex := index } { t with keyIndex := index' } ↔
      t.NaNFree ∧ index = index' := by
  have hobjects : FiniteMap.Same Object.Same t.objects t.objects ↔ t.NaNFree := by
    simp only [FiniteMap.same_self_iff, Object.same_self_iff, NaNFree]
  constructor
  · exact fun h => ⟨hobjects.mp h.objects, h.keyIndex⟩
  · exact fun ⟨hfree, heq⟩ => ⟨rfl, rfl, rfl, rfl, hobjects.mpr hfree, rfl, rfl, heq⟩

theorem same_self_iff : t.Same t ↔ t.NaNFree :=
  (same_reindexed_iff (t := t)).trans (and_iff_left rfl)

theorem written_same_iff : t.written.Same t ↔ t.NaNFree ∧ ∅ = t.keyIndex := same_reindexed_iff

def Unkeyed (t : Table) : Prop :=
  ∀ (k : ObjectKey) (o : Object), t.objects[k]? = some o → o.primaryKey = none

instance (t : Table) : Decidable t.Unkeyed :=
  decidable_of_iff (∀ e ∈ t.objects.toList, e.2.primaryKey = none)
    (FiniteMap.forall_toList_iff (p := fun o : Object => o.primaryKey = none))

theorem Indexed.keyIndex_eq_empty_iff (h : t.Indexed) : ∅ = t.keyIndex ↔ t.Unkeyed := by
  constructor
  · intro hempty k o ho
    refine Option.eq_none_iff_forall_ne_some.mpr fun p hp => ?_
    have hfound := (h p k).mpr ⟨o, ho, hp⟩
    simp [← hempty] at hfound
  · intro hnone
    refine Std.ExtTreeMap.ext_getElem? fun p => (Eq.symm ?_)
    rw [Std.ExtTreeMap.getElem?_empty, Option.eq_none_iff_forall_ne_some]
    intro k hk
    obtain ⟨o, ho, hp⟩ := (h p k).mp hk
    cases (hnone k o ho).symm.trans hp

end Table

namespace Snapshot
variable {x y : Snapshot}

structure Same (x y : Snapshot) : Prop where
  formatVersion : x.formatVersion = y.formatVersion
  schemaVersion : x.schemaVersion = y.schemaVersion
  nextTable : x.nextTable = y.nextTable
  tables : List.Forall₂ Table.Same x.tables y.tables

def rebuilt (x : Snapshot) : Snapshot := { x with tables := x.tables.map (·.rebuildIndex) }

theorem same_self_iff : x.Same x ↔ ∀ t ∈ x.tables, t.NaNFree := by
  have htables : List.Forall₂ Table.Same x.tables x.tables ↔ ∀ t ∈ x.tables, t.NaNFree := by
    simp only [List.forall₂_same, Table.same_self_iff]
  exact ⟨fun h => htables.mp h.tables, fun h => ⟨rfl, rfl, rfl, htables.mpr h⟩⟩

theorem written_same_iff :
    x.written.Same x ↔ ∀ t ∈ x.tables, t.NaNFree ∧ ∅ = t.keyIndex := by
  have htables : List.Forall₂ Table.Same x.written.tables x.tables ↔
      ∀ t ∈ x.tables, t.NaNFree ∧ ∅ = t.keyIndex := by
    simp only [written, List.forall₂_map_left_iff, List.forall₂_same, Table.written_same_iff]
  exact ⟨fun h => htables.mp h.tables, fun h => ⟨rfl, rfl, rfl, htables.mpr h⟩⟩

/-- What is built of an index does not depend on the index before. -/
theorem rebuilt_written (x : Snapshot) : x.written.rebuilt = x.rebuilt := by
  simp [rebuilt, written, Function.comp_def, Table.written, Table.rebuildIndex]

theorem rebuilt_eq (h : x.Consistent) (hindexed : ∀ t ∈ x.tables, t.Indexed) : x.rebuilt = x := by
  have htables : x.tables.map (·.rebuildIndex) = x.tables :=
    (List.map_congr_left fun t ht => Table.rebuildIndex_eq (h.table t ht) (hindexed t ht)).trans
      (List.map_id _)
  rw [rebuilt, htables]

/-- What a snapshot `x` that was read says of the snapshot `y` that was written. -/
structure Restates (x y : Snapshot) : Prop where
  /-- All fields but the indexes are as they were, and the indexes are empty. -/
  eq_written : x = y.written
  rebuilt : x.rebuilt.Same y
  same_iff : x.Same y ↔ ∀ t ∈ y.tables, t.Unkeyed

end Snapshot

namespace Store
variable {s : Store}

def NaNFree (s : Store) : Prop := ∀ (k : TableKey) (t : Table), s.tables[k]? = some t → t.NaNFree

instance (s : Store) : Decidable s.NaNFree :=
  decidable_of_iff (∀ e ∈ s.tables.toList, e.2.NaNFree) FiniteMap.forall_toList_iff

/-- Whatever is read from a text of a coherent store restates what the store exports. -/
theorem Coherent.restates (h : s.Coherent) (hback : s.ReadsBack) (hfree : s.NaNFree)
    {text : String} (htext : text ∈ s.exportState.texts) {x : Snapshot}
    (hx : Snapshot.ofText text = .ok x) : x.Restates s.exportState := by
  obtain ⟨hconsistent, rfl⟩ := (Snapshot.ofText_texts_iff hback.exportState htext).mp hx
  have htables : ∀ t ∈ s.exportState.tables, t.NaNFree ∧ t.Indexed := by
    intro t ht
    obtain ⟨k, hk⟩ := mem_tableList.mp ht
    exact ⟨hfree k t hk, (h.table k t hk).indexed⟩
  have hrebuilt : s.exportState.written.rebuilt = s.exportState := by
    rw [Snapshot.rebuilt_written, Snapshot.rebuilt_eq hconsistent fun t ht => (htables t ht).2]
  refine ⟨rfl, ?_, Snapshot.written_same_iff.trans (forall₂_congr fun t ht => ?_)⟩
  · rw [hrebuilt]
    exact Snapshot.same_self_iff.mpr fun t ht => (htables t ht).1
  · rw [(htables t ht).2.keyIndex_eq_empty_iff, and_iff_right (htables t ht).1]

/-- The texts of a store can be read, as long as no counter has run over. What is read from them is
what the store exports, once the indexes are built that no text contains; so it is the same as the
export exactly if no object has a primary key. -/
theorem exported_texts_restate {v : SchemaVersion} {turns : List Turn}
    (hback : (Turn.afterAll (.new v) turns).ReadsBack)
    (hfree : (Turn.afterAll (.new v) turns).NaNFree) :
    let s := Turn.afterAll (.new v) turns
    ∀ text ∈ s.exportState.texts,
      (Turn.InRange (.new v) turns → ∃ x, Snapshot.ofText text = .ok x) ∧
      ∀ x, Snapshot.ofText text = .ok x → x.Restates s.exportState := by
  intro s text htext
  have hcoherent : s.Coherent := Turn.afterAll_coherent (.new v)
  refine ⟨fun hrange => ?_, fun x hx => hcoherent.restates hback hfree htext hx⟩
  have hsound : s.Sound := Turn.afterAll_sound (new_sound v) hrange
  exact ⟨_, Snapshot.ofText_texts hsound.export_consistent hback.exportState htext⟩

/-- A team with two scores, the negative zero and the least number of all, and without a primary
key. -/
def scoreTurns : List Turn :=
  [.operate (.call (.addTable "teams" none)),
    .operate (.call (.addColumn ⟨0⟩ (.listOf "scores" .float))),
    .operate (.call (.createObject ⟨0⟩ none)),
    .operate (.call (.listInsert ⟨⟨0⟩, ⟨0⟩, ⟨0⟩⟩ 0 (.float (.infinite true)))),
    .operate (.call (.listInsert ⟨⟨0⟩, ⟨0⟩, ⟨0⟩⟩ 0 (.float (.finite true default)))),
    .restore .direct]

theorem exported_texts_restate_scores :
    let s := Turn.afterAll (.new 1) scoreTurns
    s.ReadsBack ∧ s.NaNFree ∧ Turn.InRange (.new 1) scoreTurns ∧
      ∃ x, Snapshot.ofText s.exportState.toPrettyText = .ok x ∧ x.Same s.exportState := by
  intro s
  have hback : s.ReadsBack := by decide +kernel
  have hfree : s.NaNFree := by decide +kernel
  have hroomy : Turn.Roomy (.new 1) scoreTurns := by decide
  have hunkeyed : ∀ t ∈ s.exportState.tables, t.Unkeyed := by decide +kernel
  obtain ⟨hread, hrestates⟩ := exported_texts_restate hback hfree s.exportState.toPrettyText
    (List.mem_cons_of_mem _ (List.mem_cons_self ..))
  obtain ⟨x, hx⟩ := hread hroomy.inRange
  exact ⟨hback, hfree, hroomy.inRange, x, hx, (hrestates x hx).same_iff.mpr hunkeyed⟩

/-- A store without tables, whose counter of tables stands at `n`. -/
def bare (v : SchemaVersion) (n : UInt32) : Store := ⟨v, ∅, n⟩

def lone (v : SchemaVersion) (n i : UInt32) : Store :=
  (bare v n).putTable ⟨i⟩ (.blank ⟨i⟩ "teams" none)

section Lone
variable {v : SchemaVersion} {n i : UInt32}

theorem tables_lone {k : TableKey} {t : Table} (ht : (lone v n i).tables[k]? = some t) :
    t = .blank ⟨i⟩ "teams" none := by
  rcases tables_putTable.mp ht with ⟨-, rfl⟩ | ⟨-, ht⟩
  · rfl
  · simp [bare] at ht

/-- It has no objects, hence no numbers. -/
theorem objects_lone {k : TableKey} {t : Table} (ht : (lone v n i).tables[k]? = some t)
    {j : ObjectKey} {o : Object} : t.objects[j]? ≠ some o := by
  cases tables_lone ht
  simp [Table.blank]

theorem addTable_bare : (Turn.operate (.call (.addTable "teams" none))).after (bare v n) =
    lone v (n + 1) n := by
  have hfresh : (bare v n).findTable "teams" = none := findTable_eq_none_iff.mpr (by simp [bare])
  have hadd : addTable "teams" none (bare v n) = .ok ⟨n⟩ (lone v (n + 1) n) :=
    addTable_ok_iff.mpr ⟨hfresh, by simp [bare], rfl, rfl⟩
  exact Turn.after_call (a := .table ⟨n⟩) (ActionLaws.map_ok_iff.mpr ⟨_, hadd, rfl⟩)

theorem eraseTable_lone :
    (Turn.operate (.call (.eraseTable ⟨i⟩))).after (lone v n i) = bare v n := by
  have hlinks : (lone v n i).linkOrigins ⟨i⟩ = .ok [] := by
    refine linkOrigins_nil_iff.mpr ⟨_, tables_putTable_self, fun k u hu _ c hc => ?_⟩
    cases tables_lone hu
    cases hc
  have htables : (lone v n i).tables.erase ⟨i⟩ = ∅ := by
    refine Std.ExtTreeMap.ext_getElem? fun k => ?_
    simp [lone, bare, putTable]
  have herase : eraseTable ⟨i⟩ (lone v n i) = .ok () (bare v n) :=
    eraseTable_ok_iff.mpr ⟨hlinks, by rw [htables]; rfl⟩
  exact Turn.after_call (a := .done) (ActionLaws.map_ok_iff.mpr ⟨_, herase, rfl⟩)

end Lone

/-- Tables that are added and erased again leave nothing behind but their keys taken. -/
theorem exists_bare (v : SchemaVersion) (n : Nat) :
    ∃ turns, Turn.afterAll (.new v) turns = bare v (.ofNat n) := by
  induction n with
  | zero => exact ⟨[], rfl⟩
  | succ n ih =>
    obtain ⟨turns, hturns⟩ := ih
    refine ⟨turns ++ [.operate (.call (.addTable "teams" none)),
      .operate (.call (.eraseTable ⟨.ofNat n⟩))], ?_⟩
    rw [Turn.afterAll_append, hturns, Turn.afterAll, List.foldl_cons, List.foldl_cons,
      List.foldl_nil, addTable_bare, eraseTable_lone, UInt32.ofNat_add]
    rfl

/-- Once the counter of tables has run over, the table that was added last has a key that is not
below it, and no text of the store can be read. -/
theorem exhausted_unreadable (v : SchemaVersion) :
    ∃ turns, let s := Turn.afterAll (.new v) turns
      s.ReadsBack ∧ s.NaNFree ∧
        ∀ text ∈ s.exportState.texts, ¬∃ x, Snapshot.ofText text = .ok x := by
  obtain ⟨turns, hturns⟩ := exists_bare v (UInt32.size - 1)
  refine ⟨turns ++ [.operate (.call (.addTable "teams" none))], ?_⟩
  have hlone : Turn.afterAll (.new v) (turns ++ [.operate (.call (.addTable "teams" none))]) =
      lone v 0 (.ofNat (UInt32.size - 1)) := by
    rw [Turn.afterAll_append, hturns]
    exact addTable_bare
  simp only [hlone]
  have hback : (lone v 0 (.ofNat (UInt32.size - 1))).ReadsBack :=
    fun k t ht j o ho => absurd ho (objects_lone ht)
  refine ⟨hback, fun k t ht j o ho => absurd ho (objects_lone ht), ?_⟩
  rintro text htext ⟨x, hx⟩
  obtain ⟨hconsistent, -⟩ := (Snapshot.ofText_texts_iff hback.exportState htext).mp hx
  have hlt := hconsistent.key_lt _ (mem_tableList.mpr ⟨_, tables_putTable_self⟩)
  exact UInt32.not_lt_zero hlt

/-- The team has a member with a primary key, so what is read from its texts is not the same as what
was written; and what was written may be unreadable once a counter has run over. -/
theorem exported_texts_differ :
    (Reachable 1 teamStore ∧ teamStore.ReadsBack ∧ teamStore.NaNFree ∧
      ∀ text ∈ teamStore.exportState.texts,
        ¬∃ x, Snapshot.ofText text = .ok x ∧ x.Same teamStore.exportState) ∧
    ∃ turns, let s := Turn.afterAll (.new 1) turns
      s.ReadsBack ∧ s.NaNFree ∧
        ∀ text ∈ s.exportState.texts, ¬∃ x, Snapshot.ofText text = .ok x := by
  have hback : teamStore.ReadsBack := by decide +kernel
  have hfree : teamStore.NaNFree := by decide +kernel
  refine ⟨⟨teamStore_reachable, hback, hfree, ?_⟩, exhausted_unreadable 1⟩
  rintro text htext ⟨x, hx, hsame⟩
  have hrestates := teamStore_reachable.coherent.restates hback hfree htext hx
  have hkeyed : ¬∀ t ∈ teamStore.exportState.tables, t.Unkeyed := by decide +kernel
  exact hkeyed (hrestates.same_iff.mp hsame)

end Store
end ChangesetReplay
