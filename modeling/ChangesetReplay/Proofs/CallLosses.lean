import ChangesetReplay.Proofs.SoundStores
import ChangesetReplay.Replay.Selection

/-! # What calls take away

A successful call takes a table, a column or an object from the store, or nothing. Whatever else was
there is there afterwards, under its own key and with the same names, definitions and primary keys.
-/

namespace ChangesetReplay

/-- What is taken from a store. -/
inductive Loss where
  | nothing
  | table (k : TableKey)
  | column (k : TableKey) (c : ColumnKey)
  | object (k : TableKey) (j : ObjectKey)
deriving DecidableEq

/-- An object goes by itself or along with its table. -/
def Loss.Takes (h : Handle) : Loss → Prop
  | nothing | column .. => False
  | table k => k = h.table
  | object k j => k = h.table ∧ j = h.object

def Selection.after (sel : Selection) : Loss → Selection
  | .nothing => sel
  | .table k => sel.afterTableErased k
  | .column k c => sel.afterColumnErased k c
  | .object k j => sel.afterObjectErased k j

/-- The table `u` is what came of the table `t` under the key `k` when `loss` was taken away. -/
structure Table.Keeps (t : Table) (k : TableKey) (loss : Loss) (u : Table) : Prop where
  name : u.name = t.name
  keyDef : u.keyDef = t.keyDef
  column : ∀ c d, t.columnDef c = .ok d → loss ≠ .column k c → u.columnDef c = .ok d
  object : ∀ (j : ObjectKey) (o : Object), t.objects[j]? = some o → loss ≠ .object k j →
    ∃ o', u.objects[j]? = some o' ∧ o'.primaryKey = o.primaryKey

namespace Table.Keeps
variable {t u w : Table} {k : TableKey} {loss : Loss} {d : ColumnDef}

theorem refl : t.Keeps k loss t where
  name := rfl
  keyDef := rfl
  column _ _ hd _ := hd
  object _ o ho _ := ⟨o, ho, rfl⟩

theorem trans (h : t.Keeps k loss u) (h' : u.Keeps k loss w) : t.Keeps k loss w where
  name := h'.name.trans h.name
  keyDef := h'.keyDef.trans h.keyDef
  column c d hd hc := h'.column c d (h.column c d hd hc) hc
  object j o ho hj := by
    obtain ⟨a, ha, hkey⟩ := h.object j o ho hj
    obtain ⟨b, hb, hkey'⟩ := h'.object j a ha hj
    exact ⟨b, hb, hkey'.trans hkey⟩

/-- Objects are changed one by one, and their primary keys are left alone. -/
theorem of_mapped {f : ObjectKey → Object → Object} (hname : u.name = t.name)
    (hkeyDef : u.keyDef = t.keyDef)
    (hcolumn : ∀ c d, t.columnDef c = .ok d → loss ≠ .column k c → u.columnDef c = .ok d)
    (hobjects : ∀ j : ObjectKey, u.objects[j]? = (t.objects[j]?).map (f j))
    (hkey : ∀ j o, (f j o).primaryKey = o.primaryKey) : t.Keeps k loss u where
  name := hname
  keyDef := hkeyDef
  column := hcolumn
  object j o ho _ := ⟨f j o, by rw [hobjects, ho, Option.map_some], hkey j o⟩

theorem columnDef_ok_iff {c : ColumnKey} :
    t.columnDef c = .ok d ↔ ∃ a, t.columns.find? (·.key = c) = some a ∧ a.definition = d := by
  unfold columnDef
  cases t.columns.find? (·.key = c) <;> simp

theorem withColumn : t.Keeps k loss (t.withColumn d) := by
  refine .of_mapped rfl rfl (fun c d' hd _ => ?_) (fun _ => objects_withColumn) fun _ _ => rfl
  obtain ⟨a, ha, hdef⟩ := columnDef_ok_iff.mp hd
  refine columnDef_ok_iff.mpr ⟨a, ?_, hdef⟩
  rw [Table.withColumn, List.find?_append, ha, Option.some_or]

/-- Dropping a column does not get in the way of looking for another. -/
theorem find?_dropColumn {column c : ColumnKey} (hne : c ≠ column) :
    (t.dropColumn column).columns.find? (·.key = c) = t.columns.find? (·.key = c) := by
  rw [Table.dropColumn, List.find?_filter]
  congr 1
  funext b
  by_cases hb : b.key = c
  · simp [hb, hne]
  · simp [hb]

theorem dropColumn {column : ColumnKey} : t.Keeps k (.column k column) (t.dropColumn column) := by
  refine .of_mapped rfl rfl (fun c d' hd hc => ?_) (fun _ => objects_dropColumn) fun _ _ => rfl
  obtain ⟨a, ha, hdef⟩ := columnDef_ok_iff.mp hd
  have hne : c ≠ column := fun heq => hc (heq ▸ rfl)
  exact columnDef_ok_iff.mpr ⟨a, (find?_dropColumn hne).trans ha, hdef⟩

theorem setCell {object : ObjectKey} {column : ColumnKey} {c : Cell} :
    t.Keeps k loss (t.setCell object column c) := by
  refine .of_mapped rfl rfl (fun _ _ hd _ => hd) (fun _ => objects_setCell) fun j o => ?_
  split <;> rfl

theorem dropLinks {target : String} {object : ObjectKey} :
    t.Keeps k loss (t.dropLinks target object) :=
  .of_mapped rfl rfl (fun _ _ hd _ => hd) (fun _ => objects_dropLinks) fun _ _ => rfl

theorem pushObject {key : Option PrimaryKey} (hfree : ⟨t.nextObject⟩ ∉ t.objects) :
    t.Keeps k loss (t.pushObject key).2 where
  name := rfl
  keyDef := rfl
  column _ _ hd _ := hd
  object j o ho _ := by
    have hne := FiniteMap.ne_of_not_mem hfree ho
    exact ⟨o, objects_pushObject.mpr (.inr ⟨hne, ho⟩), rfl⟩

theorem dropObject {object : ObjectKey} : t.Keeps k (.object k object) (t.dropObject object) where
  name := rfl
  keyDef := rfl
  column _ _ hd _ := hd
  object j o ho hj := by
    have hne : object ≠ j := fun heq => hj (heq ▸ rfl)
    exact ⟨o, objects_dropObject.mpr ⟨hne, ho⟩, rfl⟩

end Table.Keeps

namespace Store

def Holds (s : Store) (h : Handle) : Prop :=
  ∃ t, s.tables[h.table]? = some t ∧ h.object ∈ t.objects

structure Keeps (s : Store) (loss : Loss) (s' : Store) : Prop where
  table : ∀ (k : TableKey) (t : Table), s.tables[k]? = some t → loss ≠ .table k →
    ∃ u, s'.tables[k]? = some u ∧ t.Keeps k loss u
  gone : ∀ h, loss.Takes h → ¬s'.Holds h
  /-- No other table links to a table that is taken away. -/
  untargeted : ∀ k, loss = .table k → s.linkOrigins k = .ok []

namespace Keeps
variable {s s' : Store} {loss : Loss} {k : TableKey} {t u : Table}

/-- Nothing is taken away. -/
theorem of_tables (h : ∀ (k : TableKey) (t : Table), s.tables[k]? = some t →
    ∃ u, s'.tables[k]? = some u ∧ t.Keeps k .nothing u) : s.Keeps .nothing s' :=
  ⟨fun k t ht _ => h k t ht, fun _ hloss => hloss.elim, fun _ hloss => by cases hloss⟩

theorem refl : s.Keeps .nothing s := .of_tables fun _ t ht => ⟨t, ht, .refl⟩

theorem tables_putTable (ht : s.tables[k]? = some t) (hu : t.Keeps k loss u) (j : TableKey)
    (v : Table) (hv : s.tables[j]? = some v) :
    ∃ w, (s.putTable k u).tables[j]? = some w ∧ v.Keeps j loss w := by
  by_cases hj : k = j
  · subst hj
    cases ht.symm.trans hv
    exact ⟨u, Store.tables_putTable_self, hu⟩
  · exact ⟨v, Store.tables_putTable.mpr (.inr ⟨hj, hv⟩), .refl⟩

theorem putTable (ht : s.tables[k]? = some t) (hu : t.Keeps k .nothing u) :
    s.Keeps .nothing (s.putTable k u) := .of_tables (tables_putTable ht hu)

theorem putCell {f : FieldRef} {d : ColumnDef} {o : Object} {old c : Cell}
    (place : s.CellAt f t d o old) : s.Keeps .nothing (s.putCell f c) := by
  rw [putCell_eq place.table]
  exact .putTable place.table .setCell

theorem eraseTable (hlinks : s.linkOrigins k = .ok []) :
    s.Keeps (.table k) { s with tables := s.tables.erase k } where
  table j t ht hj := by
    have hne : k ≠ j := fun heq => hj (heq ▸ rfl)
    exact ⟨t, FiniteMap.erase_eq_some_iff.mpr ⟨hne, ht⟩, .refl⟩
  gone := by
    rintro h rfl ⟨t, ht, -⟩
    exact (FiniteMap.erase_eq_some_iff.mp ht).1 rfl
  untargeted := by
    rintro j ⟨rfl⟩
    exact hlinks

theorem eraseColumn {column : ColumnKey} (ht : s.tables[k]? = some t) :
    s.Keeps (.column k column) (s.putTable k (t.dropColumn column)) where
  table j v hv _ := tables_putTable ht .dropColumn j v hv
  gone _ hloss := hloss.elim
  untargeted _ hloss := by cases hloss

theorem eraseObject {object : ObjectKey} (ht : s.tables[k]? = some t) :
    s.Keeps (.object k object) ((s.putTable k (t.dropObject object)).dropLinks t.name object) where
  table j v hv _ := by
    obtain ⟨w, hw, hkeeps⟩ := tables_putTable ht .dropObject j v hv
    exact ⟨w.dropLinks t.name object, by rw [tables_dropLinks, hw, Option.map_some],
      hkeeps.trans .dropLinks⟩
  gone := by
    rintro h ⟨rfl, rfl⟩ ⟨u, hu, hmem⟩
    rw [tables_dropLinks, Store.tables_putTable_self] at hu
    cases hu
    simp [Table.dropLinks, Table.mapObjects, Table.dropObject] at hmem
  untargeted _ hloss := by cases hloss

/-- An object that is not taken away stays. -/
theorem holds (h : s.Keeps loss s') {x : Handle} (hx : s.Holds x) (hnot : ¬loss.Takes x) :
    s'.Holds x := by
  obtain ⟨t, ht, hmem⟩ := hx
  obtain ⟨u, hu, hkeeps⟩ := h.table _ t ht fun heq => hnot (heq ▸ rfl)
  obtain ⟨o, ho⟩ := FiniteMap.mem_iff_exists.mp hmem
  obtain ⟨o', ho', -⟩ := hkeeps.object _ o ho fun heq => hnot (heq ▸ ⟨rfl, rfl⟩)
  exact ⟨u, hu, FiniteMap.mem_iff_exists.mpr ⟨o', ho'⟩⟩

end Keeps

def Call.loss : Call → Loss
  | eraseTable k => .table k
  | eraseColumn k c => .column k c
  | eraseObject k j => .object k j
  | _ => .nothing

/-- A successful call takes away what it is to erase, and leaves all else. -/
theorem Call.keeps {call : Call} {s s' : Store} {a : Answer} (h : call.run s = .ok a s') :
    s.Keeps call.loss s' := by
  have hedit : ∀ {f : FieldRef} {edit : List Value → Except Cause (List Value)} {u : Unit},
      editList f edit s = .ok u s' → s.Keeps .nothing s' := by
    intro f edit u hrun
    obtain ⟨l, l', hl, -, rfl⟩ := editList_ok_iff.mp hrun
    obtain ⟨t, d, o, hat⟩ := items_ok_iff.mp hl
    exact .putCell hat
  have hwrite : ∀ {f : FieldRef} {v : Value} {edit : List Value → Except Cause (List Value)}
      {u : Unit}, (checkElement f v >>= fun _ => editList f edit) s = .ok u s' →
      s.Keeps .nothing s' :=
    fun hrun => hedit (checkedEdit_ok_iff.mp hrun).2
  cases call <;> simp only [run, ActionLaws.map_ok_iff] at h <;> obtain ⟨b, h, rfl⟩ := h
  case addTable name keyDef =>
    obtain ⟨-, hfree, rfl, rfl⟩ := addTable_ok_iff.mp h
    refine .of_tables fun k t ht => ⟨t, Store.tables_putTable.mpr (.inr ⟨?_, ht⟩), .refl⟩
    exact FiniteMap.ne_of_not_mem hfree ht
  case eraseTable table =>
    obtain ⟨hlinks, rfl⟩ := eraseTable_ok_iff.mp h
    exact .eraseTable hlinks
  case addColumn table d =>
    obtain ⟨-, -, t, ht, -, -, rfl, rfl⟩ := addColumn_ok_iff.mp h
    exact .putTable ht .withColumn
  case eraseColumn table column =>
    obtain ⟨t, d, ht, -, -, rfl⟩ := eraseColumn_ok_iff.mp h
    exact .eraseColumn ht
  case createObject table key =>
    obtain ⟨t, ht, -, hfree, rfl, rfl⟩ := createObject_ok_iff.mp h
    exact .putTable ht (.pushObject hfree)
  case eraseObject table object =>
    obtain ⟨t, ht, -, rfl⟩ := eraseObject_ok_iff.mp h
    exact .eraseObject ht
  case setScalar f v =>
    obtain ⟨t, d, o, c, hat, -, -, -, rfl⟩ := setScalar_ok_iff.mp h
    exact .putCell hat
  case addInt f delta =>
    obtain ⟨t, d, o, n, hat, -, -, rfl, rfl⟩ := addInt_ok_iff.mp h
    exact .putCell hat
  case listInsert f i v => exact hwrite h
  case listSet f i v => exact hwrite h
  case listErase f i => exact hedit h
  case listMove f source target => exact hedit h
  case listSwap f i j => exact hedit h
  case listClear f => exact hedit h

end Store
end ChangesetReplay
