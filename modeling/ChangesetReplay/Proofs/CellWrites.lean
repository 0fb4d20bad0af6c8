import ChangesetReplay.Proofs.CoherentStores

/-! # Writing one cell

What a store becomes when one of its cells is written: that cell, and nothing else at any level. It is
described part by part, without saying how it is computed, and only one store fits the description.
What may be written is described apart from how it is checked. -/

namespace ChangesetReplay

namespace FiniteMap
variable {α β : Type} [Ord α] [Std.TransOrd α] [Std.LawfulEqOrd α]
variable {m m' : Std.ExtTreeMap α β} {k : α} {v : β}

/-- An insertion is told by what stands under its key and by the other keys. -/
theorem insert_eq_iff :
    m.insert k v = m' ↔ m'[k]? = some v ∧ ∀ j, j ≠ k → m'[j]? = m[j]? := by
  constructor
  · intro h
    subst h
    refine ⟨insert_eq_some_iff.mpr (.inl ⟨rfl, rfl⟩), fun j hj => Option.ext fun w => ?_⟩
    rw [insert_eq_some_iff]
    simp [hj.symm]
  · rintro ⟨hk, hother⟩
    refine Std.ExtTreeMap.ext_getElem? fun j => Option.ext fun w => ?_
    rw [insert_eq_some_iff]
    by_cases hj : k = j
    · subst hj
      simp [hk]
    · simp [hj, hother j (Ne.symm hj)]

end FiniteMap

structure Object.Written (c : ColumnKey) (cell : Cell) (o o' : Object) : Prop where
  rest : o' = { o with fields := o'.fields }
  present : c ∈ o.fields
  cell : o'.fields[c]? = some cell
  otherCell : ∀ j : ColumnKey, j ≠ c → o'.fields[j]? = o.fields[j]?

theorem Object.written_iff {c : ColumnKey} {cell : Cell} {o o' : Object} (hc : c ∈ o.fields) :
    o.Written c cell o' ↔ { o with fields := o.fields.insert c cell } = o' := by
  constructor
  · intro h
    rw [h.rest, FiniteMap.insert_eq_iff.mpr ⟨h.cell, h.otherCell⟩]
  · intro h
    subst h
    obtain ⟨hcell, hother⟩ := FiniteMap.insert_eq_iff.mp (rfl : o.fields.insert c cell = _)
    exact ⟨rfl, hc, hcell, hother⟩

theorem Object.Written.symm {c : ColumnKey} {old cell : Cell} {o o' : Object}
    (h : o.Written c cell o') (hold : o.fields[c]? = some old) : o'.Written c old o where
  rest := by rw [h.rest]
  present := FiniteMap.mem_iff_exists.mpr ⟨cell, h.cell⟩
  cell := hold
  otherCell j hj := (h.otherCell j hj).symm

/-- What a table becomes when the cell of the object `x` in the column `c` is written. Its name, its
columns, its counters and its index are the same. -/
structure Table.Written (x : ObjectKey) (c : ColumnKey) (cell : Cell) (t u : Table) : Prop where
  rest : u = { t with objects := u.objects }
  object : ∃ o o', t.objects[x]? = some o ∧ u.objects[x]? = some o' ∧ o.Written c cell o'
  otherObject : ∀ y : ObjectKey, y ≠ x → u.objects[y]? = t.objects[y]?

theorem Table.written_iff {x : ObjectKey} {c : ColumnKey} {cell : Cell} {t u : Table} {o : Object}
    (ho : t.objects[x]? = some o) (hc : c ∈ o.fields) :
    t.Written x c cell u ↔ t.setCell x c cell = u := by
  have hset : t.setCell x c cell =
      { t with objects := t.objects.insert x { o with fields := o.fields.insert c cell } } := by
    rw [setCell, FiniteMap.modify_eq_insert ho]
  rw [hset]
  constructor
  · intro h
    obtain ⟨a, o', ha, ho', hwritten⟩ := h.object
    cases ho.symm.trans ha
    rw [(Object.written_iff hc).mp hwritten, h.rest,
      FiniteMap.insert_eq_iff.mpr ⟨ho', h.otherObject⟩]
  · intro h
    subst h
    obtain ⟨hobject, hother⟩ := FiniteMap.insert_eq_iff.mp
      (rfl : t.objects.insert x { o with fields := o.fields.insert c cell } = _)
    exact ⟨rfl, ⟨o, _, ho, hobject, (Object.written_iff hc).mpr rfl⟩, hother⟩

theorem Table.Written.symm {x : ObjectKey} {c : ColumnKey} {old cell : Cell} {t u : Table}
    {o : Object} (h : t.Written x c cell u) (ho : t.objects[x]? = some o)
    (hold : o.fields[c]? = some old) : u.Written x c old t where
  rest := by rw [h.rest]
  object := by
    obtain ⟨a, o', ha, ho', hwritten⟩ := h.object
    cases ho.symm.trans ha
    exact ⟨o', o, ho', ho, hwritten.symm hold⟩
  otherObject y hy := (h.otherObject y hy).symm

namespace Store
variable {s s' : Store} {k : TableKey} {t u : Table} {f : FieldRef} {d : ColumnDef} {o : Object}
variable {old cell : Cell}

/-- The store `s'` is `s` but for the table under the key `k`, which was `t` and is `u`. -/
structure Replaces (k : TableKey) (t u : Table) (s s' : Store) : Prop where
  rest : s' = { s with tables := s'.tables }
  before : s.tables[k]? = some t
  after : s'.tables[k]? = some u
  otherTable : ∀ j : TableKey, j ≠ k → s'.tables[j]? = s.tables[j]?

theorem replaces_iff (ht : s.tables[k]? = some t) : s.Replaces k t u s' ↔ s.putTable k u = s' := by
  constructor
  · intro h
    rw [putTable, h.rest, FiniteMap.insert_eq_iff.mpr ⟨h.after, h.otherTable⟩]
  · intro h
    subst h
    obtain ⟨htable, hother⟩ := FiniteMap.insert_eq_iff.mp (rfl : s.tables.insert k u = _)
    exact ⟨rfl, ht, htable, hother⟩

theorem Replaces.symm (h : s.Replaces k t u s') : s'.Replaces k u t s where
  rest := by rw [h.rest]
  before := h.after
  after := h.before
  otherTable j hj := (h.otherTable j hj).symm

def Written (f : FieldRef) (cell : Cell) (s s' : Store) : Prop :=
  ∃ t u, s.Replaces f.table t u s' ∧ t.Written f.object f.column cell u

/-- A cell that is there can be written, and what becomes of the store is determined. -/
theorem CellAt.written_iff (h : s.CellAt f t d o old) :
    s.Written f cell s' ↔ s.putCell f cell = s' := by
  have htable : ∀ u, t.Written f.object f.column cell u ↔ t.setCell f.object f.column cell = u :=
    fun u => Table.written_iff h.object (FiniteMap.mem_iff_exists.mpr ⟨old, h.cell⟩)
  rw [putCell_eq h.table, ← replaces_iff h.table]
  constructor
  · rintro ⟨a, u, hreplaces, hwritten⟩
    cases h.table.symm.trans hreplaces.before
    rwa [(htable u).mp hwritten]
  · intro hreplaces
    exact ⟨t, _, hreplaces, (htable _).mpr rfl⟩

/-- A write is undone by writing what was there before. -/
theorem CellAt.written_symm (h : s.CellAt f t d o old) (hwritten : s.Written f cell s') :
    s'.Written f old s := by
  obtain ⟨a, u, hreplaces, htable⟩ := hwritten
  cases h.table.symm.trans hreplaces.before
  exact ⟨u, t, hreplaces.symm, htable.symm h.object h.cell⟩

/-- What was written is read. -/
theorem CellAt.putCell (h : s.CellAt f t d o old) (cell : Cell) :
    (s.putCell f cell).CellAt f (t.setCell f.object f.column cell) d
      { o with fields := o.fields.insert f.column cell } cell where
  table := by rw [putCell_eq h.table, tables_putTable_self]
  column := h.column
  object := by rw [Table.objects_setCell, h.object, Option.map_some, if_pos rfl]
  cell := FiniteMap.insert_eq_some_iff.mpr (.inl ⟨rfl, rfl⟩)

theorem CellAt.putCell_putCell (h : s.CellAt f t d o old) (cell : Cell) :
    (s.putCell f cell).putCell f old = s :=
  (h.putCell cell).written_iff.mp (h.written_symm (h.written_iff.mpr rfl))

end Store

/-- A value of the type of a column, or null where null may stand. A time has its nanoseconds within a
second. -/
structure ColumnDef.Suits (d : ColumnDef) (v : Value) : Prop where
  null : v = .null → d.nullable = true
  type : v ≠ .null → v.type? = some d.type
  time : ∀ ts, v = .timestamp ts →
    0 ≤ ts.nanoseconds.toInt ∧ ts.nanoseconds.toInt < 1000000000

/-- A value that may be written into a column, single or in a list: it suits the column, and a link
leads to an object of the table linked to. -/
structure ColumnDef.Admits (s : Store) (d : ColumnDef) (v : Value) : Prop extends d.Suits v where
  link : ∀ x, v = .link x → ∃ (k : TableKey) (t : Table), s.tables[k]? = some t ∧
    d.linkTarget = some t.name ∧ x ∈ t.objects

theorem Timestamp.isValid_iff (ts : Timestamp) : ts.isValid = true ↔
    0 ≤ ts.nanoseconds.toInt ∧ ts.nanoseconds.toInt < 1000000000 := decide_eq_true_iff

namespace ColumnDef
variable {s : Store} {d : ColumnDef} {v : Value}

theorem exists_linkTarget (hd : d.validate = .ok ()) (htype : d.type = .link) :
    ∃ target, d.linkTarget = some target := by
  cases hlink : d.linkTarget with
  | some target => exact ⟨target, rfl⟩
  | none => simp [validate, htype, hlink] at hd

theorem checkElement_ok_iff : d.checkElement v = .ok () ↔ d.Suits v := by
  have hsuits : d.Suits v ↔ (v = .null → d.nullable = true) ∧
      (v ≠ .null → v.type? = some d.type) ∧ ∀ ts, v = .timestamp ts → ts.isValid = true := by
    simp only [Timestamp.isValid_iff]
    exact ⟨fun h => ⟨h.null, h.type, h.time⟩, fun h => ⟨h.1, h.2.1, h.2.2⟩⟩
  rw [hsuits]
  cases v with
  | null => simp [checkElement, Value.type?]
  | timestamp ts =>
    by_cases htype : ValueType.timestamp = d.type
    · cases hvalid : ts.isValid <;> simp [checkElement, Value.type?, htype, hvalid]
    · simp [checkElement, Value.type?, htype]
  | int n => simp [checkElement, Value.type?]
  | bool b => simp [checkElement, Value.type?]
  | float x => simp [checkElement, Value.type?]
  | string text => simp [checkElement, Value.type?]
  | binary bytes => simp [checkElement, Value.type?]
  | link x => simp [checkElement, Value.type?]

/-- In a store whose tables have names of their own, the check of a value admits what a column
admits. -/
theorem checkValue_ok_iff_admits (hs : s.Named) (hd : d.validate = .ok ()) :
    s.checkValue d v = .ok () ↔ d.Admits s v := by
  rw [Store.checkValue_ok_iff, checkElement_ok_iff]
  constructor
  · rintro ⟨hsuits, hlink⟩
    refine ⟨hsuits, ?_⟩
    intro x hx
    subst hx
    have hlinked : d.type = .link := (Option.some.inj (hsuits.type (by simp))).symm
    obtain ⟨target, htarget⟩ := exists_linkTarget hd hlinked
    obtain ⟨k, t, hfound, ht, hmem⟩ := hlink x target rfl htarget
    obtain ⟨u, hu, rfl⟩ := hs.findTable_eq_some_iff.mp hfound
    cases ht.symm.trans hu
    exact ⟨k, t, ht, htarget, hmem⟩
  · intro h
    refine ⟨h.toSuits, ?_⟩
    intro x target hx htarget
    obtain ⟨k, t, ht, hlink, hmem⟩ := h.link x hx
    cases htarget.symm.trans hlink
    exact ⟨k, t, hs.findTable_eq_some_iff.mpr ⟨t, ht, rfl⟩, ht, hmem⟩

end ColumnDef
end ChangesetReplay
