import ChangesetReplay.Proofs.StoreCalls
import ChangesetReplay.Proofs.FilledTables

/-! # Filled stores

The tables of a filled store are filled, they stand under their own keys, no two have one name, and
the targets of all columns are there. Every change keeps a store filled, even once its counters have
run out. -/

namespace ChangesetReplay

namespace Store

def HasTable (s : Store) (name : String) : Prop :=
  ∃ (k : TableKey) (t : Table), s.tables[k]? = some t ∧ t.name = name

/-- Tables stand under their own keys, and no two have one name. -/
structure Named (s : Store) : Prop where
  key_eq : ∀ (k : TableKey) (t : Table), s.tables[k]? = some t → t.key = k
  name_unique : ∀ (j k : TableKey) (t u : Table), s.tables[j]? = some t → s.tables[k]? = some u →
    t.name = u.name → j = k

structure Filled (s : Store) : Prop where
  named : s.Named
  table : ∀ (k : TableKey) (t : Table), s.tables[k]? = some t → t.Filled
  target : ∀ (k : TableKey) (t : Table), s.tables[k]? = some t → ∀ c ∈ t.columns, ∀ target,
    c.definition.linkTarget = some target → s.HasTable target

variable {s : Store} {k : TableKey} {t u : Table} {target : String} {object : ObjectKey}

theorem findTable_ne_none_iff {name : String} : s.findTable name ≠ none ↔ s.HasTable name := by
  simp [findTable_eq_none_iff, HasTable]

theorem tables_putTable {j : TableKey} {v : Table} :
    (s.putTable k u).tables[j]? = some v ↔ k = j ∧ u = v ∨ k ≠ j ∧ s.tables[j]? = some v :=
  FiniteMap.insert_eq_some_iff

theorem tables_putTable_self : (s.putTable k u).tables[k]? = some u :=
  tables_putTable.mpr (.inl ⟨rfl, rfl⟩)

/-- What holds of all tables holds of them when one is replaced by a table of which it holds. -/
theorem forall_putTable {P : TableKey → Table → Prop}
    (h : ∀ (j : TableKey) (v : Table), s.tables[j]? = some v → P j v) (hu : P k u) :
    ∀ (j : TableKey) (v : Table), (s.putTable k u).tables[j]? = some v → P j v := by
  intro j v hv
  rcases tables_putTable.mp hv with ⟨rfl, rfl⟩ | ⟨-, hv⟩
  · exact hu
  · exact h j v hv

/-- Writing a cell is replacing its table. -/
theorem putCell_eq {f : FieldRef} {c : Cell} (ht : s.tables[f.table]? = some t) :
    s.putCell f c = s.putTable f.table (t.setCell f.object f.column c) := by
  rw [putCell, FiniteMap.modify_eq_insert ht, putTable]

theorem hasTable_putTable {name : String} (ht : s.tables[k]? = some t) (hname : u.name = t.name) :
    (s.putTable k u).HasTable name ↔ s.HasTable name := by
  constructor
  · rintro ⟨j, v, hv, rfl⟩
    rcases tables_putTable.mp hv with ⟨rfl, rfl⟩ | ⟨-, hv⟩
    · exact ⟨k, t, ht, hname.symm⟩
    · exact ⟨j, v, hv, rfl⟩
  · rintro ⟨j, v, hv, rfl⟩
    by_cases hj : k = j
    · subst hj
      cases ht.symm.trans hv
      exact ⟨k, u, tables_putTable_self, hname⟩
    · exact ⟨j, v, tables_putTable.mpr (.inr ⟨hj, hv⟩), rfl⟩

theorem tables_dropLinks {j : TableKey} :
    (s.dropLinks target object).tables[j]? = (s.tables[j]?).map (·.dropLinks target object) := by
  simp [Store.dropLinks]

theorem forall_dropLinks {P : TableKey → Table → Prop}
    (h : ∀ (j : TableKey) (v : Table), s.tables[j]? = some v → P j (v.dropLinks target object)) :
    ∀ (j : TableKey) (v : Table), (s.dropLinks target object).tables[j]? = some v → P j v := by
  intro j v hv
  rw [tables_dropLinks, Option.map_eq_some_iff] at hv
  obtain ⟨w, hw, rfl⟩ := hv
  exact h j w hw

theorem hasTable_dropLinks {name : String} (h : s.HasTable name) :
    (s.dropLinks target object).HasTable name := by
  obtain ⟨j, v, hv, rfl⟩ := h
  exact ⟨j, v.dropLinks target object, by simp [tables_dropLinks, hv], rfl⟩

/-- The table of a name is found by it. -/
theorem Named.tableNamed?_eq (h : s.Named) (ht : s.tables[k]? = some t) :
    s.tableNamed? t.name = some t := by
  cases hfound : s.tableNamed? t.name with
  | none => exact absurd rfl (tableNamed?_eq_none_iff.mp hfound k t ht)
  | some u =>
    obtain ⟨hname, j, hu⟩ := tableNamed?_eq_some hfound
    cases h.name_unique j k u t hu ht hname
    rw [ht] at hu
    rw [hu]

theorem Named.findTable_eq_some_iff (h : s.Named) {name : String} :
    s.findTable name = some k ↔ ∃ t, s.tables[k]? = some t ∧ t.name = name := by
  constructor
  · intro hk
    obtain ⟨t, ht, rfl⟩ := Option.map_eq_some_iff.mp hk
    obtain ⟨hname, j, hj⟩ := tableNamed?_eq_some ht
    exact ⟨t, h.key_eq j t hj ▸ hj, hname⟩
  · rintro ⟨t, ht, rfl⟩
    rw [findTable, h.tableNamed?_eq ht, Option.map_some, h.key_eq k t ht]

theorem Named.of_old {s' : Store} (h : s.Named)
    (hold : ∀ (j : TableKey) (v : Table), s'.tables[j]? = some v →
      ∃ w, s.tables[j]? = some w ∧ v.key = w.key ∧ v.name = w.name) : s'.Named where
  key_eq j v hv := by
    obtain ⟨w, hw, hkey, -⟩ := hold j v hv
    exact hkey.trans (h.key_eq j w hw)
  name_unique i j v w hv hw heq := by
    obtain ⟨v', hv', -, hvn⟩ := hold i v hv
    obtain ⟨w', hw', -, hwn⟩ := hold j w hw
    exact h.name_unique i j v' w' hv' hw' (hvn.symm.trans (heq.trans hwn))

theorem Named.putTable (h : s.Named) (ht : s.tables[k]? = some t) (hkey : u.key = t.key)
    (hname : u.name = t.name) : (s.putTable k u).Named := by
  refine h.of_old fun j v hv => ?_
  rcases tables_putTable.mp hv with ⟨rfl, rfl⟩ | ⟨-, hv⟩
  · exact ⟨t, ht, hkey, hname⟩
  · exact ⟨v, hv, rfl, rfl⟩

theorem Named.addTable {name : String} (h : s.Named) (keyDef : Option KeyDef)
    (hfresh : s.findTable name = none) :
    Named ({ s with nextTable := s.nextTable + 1 }.putTable ⟨s.nextTable⟩
      (.blank ⟨s.nextTable⟩ name keyDef)) := by
  have hblank : (Table.blank ⟨s.nextTable⟩ name keyDef).key = ⟨s.nextTable⟩ ∧
      (Table.blank ⟨s.nextTable⟩ name keyDef).name = name := by
    cases keyDef <;> exact ⟨rfl, rfl⟩
  have hnames := findTable_eq_none_iff.mp hfresh
  refine ⟨fun j v hv => ?_, fun i j v w hv hw heq => ?_⟩
  · rcases tables_putTable.mp hv with ⟨rfl, rfl⟩ | ⟨-, hv⟩
    · exact hblank.1
    · exact h.key_eq j v hv
  · rcases tables_putTable.mp hv with ⟨rfl, rfl⟩ | ⟨-, hv⟩ <;>
      rcases tables_putTable.mp hw with ⟨rfl, rfl⟩ | ⟨-, hw⟩
    · rfl
    · exact absurd (heq.symm.trans hblank.2) (hnames j w hw)
    · exact absurd (heq.trans hblank.2) (hnames i v hv)
    · exact h.name_unique i j v w hv hw heq

theorem Named.dropLinks (h : s.Named) (target : String) (object : ObjectKey) :
    (s.dropLinks target object).Named :=
  h.of_old <| forall_dropLinks fun _ w hw => ⟨w, hw, rfl, rfl⟩

theorem Named.eraseTable (h : s.Named) (k : TableKey) :
    Named { s with tables := s.tables.erase k } :=
  h.of_old fun _ v hv => ⟨v, (FiniteMap.erase_eq_some_iff.mp hv).2, rfl, rfl⟩

theorem checkElement_of_checkValue {d : ColumnDef} {v : Value} (h : s.checkValue d v = .ok ()) :
    d.checkElement v = .ok () := (checkValue_ok_iff.mp h).1

theorem CellAt.fits {f : FieldRef} {d : ColumnDef} {o : Object} {c : Cell}
    (h : s.CellAt f t d o c) (ht : t.Filled) : c.Fits d := by
  obtain ⟨cell, hcell, hfits⟩ := (ht.object _ o h.object).cell _ (Table.columnDef_ok h.column)
  cases h.cell.symm.trans hcell
  exact hfits

/-- A value fits that passed its check, or that is an integer like the one that was there. -/
theorem CellAt.scalar_fits {f : FieldRef} {d : ColumnDef} {o : Object} {c : Cell} {v : Value}
    (place : s.CellAt f t d o c) (ht : t.Filled) (single : d.isList = false)
    (fits : s.checkValue d v = .ok () ∨ ∃ m n, c = .scalar (.int m) ∧ v = .int n) :
    (Cell.scalar v).Fits d := by
  refine ⟨single.symm, ?_⟩
  simp only [Cell.values, List.mem_singleton, forall_eq]
  rcases fits with hv | ⟨m, n, rfl, rfl⟩
  · exact checkElement_of_checkValue hv
  · have hint := (place.fits ht).admitted (.int m) (List.mem_singleton.mpr rfl)
    exact ColumnDef.checkElement_int hint

/-- A list fits whose values passed their check, or were there. -/
theorem CellAt.list_fits {f : FieldRef} {d : ColumnDef} {o : Object} {l l' : List Value}
    (place : s.CellAt f t d o (.list l)) (ht : t.Filled)
    (fits : ∀ v ∈ l', v ∈ l ∨ s.checkValue d v = .ok ()) : (Cell.list l').Fits d := by
  have hl := place.fits ht
  refine ⟨hl.shape, fun v hv => ?_⟩
  rcases fits v hv with hv | hv
  · exact hl.admitted v hv
  · exact checkElement_of_checkValue hv

namespace Filled

theorem new (v : SchemaVersion) : (Store.new v).Filled :=
  ⟨⟨by simp [Store.new], by simp [Store.new]⟩, by simp [Store.new], by simp [Store.new]⟩

theorem putTable (h : s.Filled) (ht : s.tables[k]? = some t) (hu : u.Filled)
    (hkey : u.key = t.key) (hname : u.name = t.name)
    (htarget : ∀ c ∈ u.columns, ∀ target, c.definition.linkTarget = some target →
      s.HasTable target) : (s.putTable k u).Filled where
  named := h.named.putTable ht hkey hname
  table := forall_putTable h.table hu
  target := forall_putTable
    (fun j v hv c hc target hlink =>
      (hasTable_putTable ht hname).mpr (h.target j v hv c hc target hlink))
    fun c hc target hlink => (hasTable_putTable ht hname).mpr (htarget c hc target hlink)

theorem dropLinks (h : s.Filled) (target : String) (object : ObjectKey) :
    (s.dropLinks target object).Filled where
  named := h.named.dropLinks target object
  table := forall_dropLinks fun j w hw => (h.table j w hw).dropLinks target object
  target := forall_dropLinks fun j w hw c hc name hlink =>
    hasTable_dropLinks (h.target j w hw c hc name hlink)

theorem eraseTable (h : s.Filled) (hlinks : s.linkOrigins k = .ok []) :
    Filled { s with tables := s.tables.erase k } := by
  obtain ⟨t, ht, hnone⟩ := linkOrigins_nil_iff.mp hlinks
  refine ⟨h.named.eraseTable k, fun j v hv => ?_, fun j v hv c hc target hlink => ?_⟩
  · exact h.table j v (FiniteMap.erase_eq_some_iff.mp hv).2
  · obtain ⟨hne, hv⟩ := FiniteMap.erase_eq_some_iff.mp hv
    obtain ⟨i, w, hw, rfl⟩ := h.target j v hv c hc target hlink
    refine ⟨i, w, FiniteMap.erase_eq_some_iff.mpr ⟨?_, hw⟩, rfl⟩
    -- the target is not the erased table, to which nothing links
    rintro rfl
    cases ht.symm.trans hw
    exact hnone j v hv (by rw [h.named.key_eq j v hv]; exact hne.symm) c hc hlink

theorem addTable {name : String} {keyDef : Option KeyDef} (h : s.Filled)
    (hfresh : s.findTable name = none) (hfree : ⟨s.nextTable⟩ ∉ s.tables) :
    Filled ({ s with nextTable := s.nextTable + 1 }.putTable ⟨s.nextTable⟩
      (.blank ⟨s.nextTable⟩ name keyDef)) where
  named := h.named.addTable keyDef hfresh
  table := forall_putTable h.table (.blank _ _ _)
  target := forall_putTable
    (fun j v hv c hc target hlink => by
      obtain ⟨i, w, hw, rfl⟩ := h.target j v hv c hc target hlink
      have hne := FiniteMap.ne_of_not_mem hfree hw
      exact ⟨i, w, tables_putTable.mpr (.inr ⟨hne, hw⟩), rfl⟩)
    fun c hc target hlink => by cases (Table.linkTarget_of_blank hc).symm.trans hlink

theorem putCell {f : FieldRef} {d : ColumnDef} {o : Object} {old c : Cell} (h : s.Filled)
    (place : s.CellAt f t d o old) (hc : c.Fits d) : (s.putCell f c).Filled := by
  rw [putCell_eq place.table]
  exact h.putTable place.table ((h.table _ t place.table).setCell place.column hc) rfl rfl
    (h.target _ t place.table)

end Filled

/-- Each change of a store keeps it filled. -/
theorem Change.filled {s' : Store} (hc : Change s s') (h : s.Filled) : s'.Filled := by
  cases hc with
  | addTable name keyDef fresh free => exact h.addTable fresh free
  | eraseTable untargeted => exact h.eraseTable untargeted
  | @addColumn k t d found valid fresh free target =>
    refine h.putTable found ((h.table k t found).withColumn valid fresh free) rfl rfl
      fun c hc name hlink => ?_
    rcases List.mem_append.mp hc with hc | hc
    · exact h.target k t found c hc name hlink
    · cases List.mem_singleton.mp hc
      exact findTable_ne_none_iff.mp (target name hlink)
  | @eraseColumn k t column d found defined noKey =>
    exact h.putTable found ((h.table k t found).dropColumn defined noKey) rfl rfl
      fun c hc => h.target k t found c (List.mem_filter.mp hc).1
  | @createObject k t key found admitted free =>
    exact h.putTable found ((h.table k t found).pushObject admitted) rfl rfl (h.target k t found)
  | @eraseObject k t object found present =>
    have hu := (h.table k t found).dropObject object
    exact (h.putTable found hu rfl rfl (h.target k t found)).dropLinks t.name object
  | setScalar place single noKey fits =>
    exact h.putCell place (place.scalar_fits (h.table _ _ place.table) single fits)
  | editList place fits =>
    exact h.putCell place (place.list_fits (h.table _ _ place.table) fits)

end Store
end ChangesetReplay
