import ChangesetReplay.Proofs.FilledTables

/-! # Sound tables

A sound table is filled and consistent, and its index leads from each primary key to the object that
has it. Every change of one table keeps it sound, as long as its counters have room. -/

namespace ChangesetReplay

theorem lt_add_one_of_room {n : UInt32} (h : n.toNat + 1 < UInt32.size) : n < n + 1 := by
  refine UInt32.lt_add_one ?_
  rintro rfl
  exact absurd h (by decide)

theorem objectKey_lt_add_one {n : UInt64} (h : n.toNat + 1 < UInt64.size) : n < n + 1 := by
  refine UInt64.lt_add_one ?_
  rintro rfl
  exact absurd h (by decide)

theorem Object.Complete.of_schema {t u : Table} {k : ObjectKey} {o : Object} (h : o.Complete t k)
    (hcolumns : u.columns = t.columns) (hkeyDef : u.keyDef = t.keyDef) (hname : u.name = t.name)
    (hnext : t.nextObject ≤ u.nextObject) : o.Complete u k where
  key_eq := h.key_eq
  key_lt := UInt64.lt_of_lt_of_le h.key_lt hnext
  keyed d hd := hname ▸ h.keyed d (hkeyDef ▸ hd)
  unkeyed hd := h.unkeyed (hkeyDef ▸ hd)
  cell := hcolumns ▸ h.cell
  column := hcolumns ▸ h.column

theorem Object.Complete.fills {t : Table} {k : ObjectKey} {o : Object} (h : o.Complete t k) :
    o.Fills t.columns := ⟨h.cell, h.column⟩

/-- An object in its place in a table, whatever its cells are. -/
structure Object.Placed (t : Table) (key : ObjectKey) (o : Object) : Prop where
  key_eq : o.key = key
  key_lt : key.index < t.nextObject
  keyed : ∀ d, t.keyDef = some d → d.check t.name o.primaryKey = .ok ()
  unkeyed : t.keyDef = none → o.primaryKey = none

theorem Object.Complete.placed {t : Table} {k : ObjectKey} {o : Object} (h : o.Complete t k) :
    o.Placed t k := ⟨h.key_eq, h.key_lt, h.keyed, h.unkeyed⟩

theorem Object.Placed.of_schema {t u : Table} {k : ObjectKey} {o a : Object} (h : o.Placed t k)
    (hkey : a.key = o.key) (hprimary : a.primaryKey = o.primaryKey) (hkeyDef : u.keyDef = t.keyDef)
    (hname : u.name = t.name) (hnext : t.nextObject ≤ u.nextObject) : a.Placed u k where
  key_eq := hkey.trans h.key_eq
  key_lt := UInt64.lt_of_lt_of_le h.key_lt hnext
  keyed d hd := by
    rw [hname, hprimary]
    exact h.keyed d (hkeyDef ▸ hd)
  unkeyed hd := hprimary.trans (h.unkeyed (hkeyDef ▸ hd))

/-- The index leads from each primary key to the object that has it. -/
def Table.Indexed (t : Table) : Prop :=
  ∀ (p : PrimaryKey) (k : ObjectKey), t.keyIndex[p]? = some k ↔
    ∃ o, t.objects[k]? = some o ∧ o.primaryKey = some p

namespace Table.Indexed
variable {t u : Table}

theorem unique (h : t.Indexed) {j k : ObjectKey} {a b : Object} {p : PrimaryKey}
    (ha : t.objects[j]? = some a) (hb : t.objects[k]? = some b) (hp : a.primaryKey = some p)
    (hq : b.primaryKey = some p) : j = k := by
  have hj := (h p j).mpr ⟨a, ha, hp⟩
  have hk := (h p k).mpr ⟨b, hb, hq⟩
  exact Option.some.inj (hj.symm.trans hk)

/-- A change of objects one by one, which leaves their primary keys alone. -/
theorem of_mapped {f : ObjectKey → Object → Object} (h : t.Indexed)
    (hindex : u.keyIndex = t.keyIndex)
    (hobjects : ∀ k : ObjectKey, u.objects[k]? = (t.objects[k]?).map (f k))
    (hkey : ∀ k o, (f k o).primaryKey = o.primaryKey) : u.Indexed := by
  intro p k
  rw [hindex, h p k, hobjects]
  constructor
  · rintro ⟨o, ho, hp⟩
    exact ⟨f k o, by simp [ho], (hkey k o).trans hp⟩
  · rintro ⟨o, ho, hp⟩
    obtain ⟨a, ha, rfl⟩ := Option.map_eq_some_iff.mp ho
    exact ⟨a, ha, (hkey k a).symm.trans hp⟩

theorem dropObject (h : t.Indexed) (object : ObjectKey) : (t.dropObject object).Indexed := by
  intro p k
  rw [keyIndex_dropObject]
  constructor
  · rintro ⟨hnot, hp⟩
    obtain ⟨o, ho, hkey⟩ := (h p k).mp hp
    refine ⟨o, objects_dropObject.mpr ⟨fun heq => hnot o ?_ hkey, ho⟩, hkey⟩
    rw [heq, ho]
  · rintro ⟨o, ho, hkey⟩
    obtain ⟨hne, ho⟩ := objects_dropObject.mp ho
    exact ⟨fun a ha hkey' => hne (h.unique ha ho hkey' hkey), (h p k).mpr ⟨o, ho, hkey⟩⟩

theorem pushObject {key : Option PrimaryKey} (h : t.Indexed)
    (hkey : Store.checkNewKey t key = .ok ())
    (hfree : t.objects[(⟨t.nextObject⟩ : ObjectKey)]? = none) : (t.pushObject key).2.Indexed := by
  intro p k
  rw [keyIndex_pushObject]
  by_cases hp : key = some p
  · -- the new object has the key, and no other one has it
    have hnone : t.keyIndex[p]? = none := by
      simpa using (Store.checkNewKey_ok_iff.mp hkey).2.2 p hp
    rw [if_pos hp, Option.some.injEq]
    constructor
    · intro hk
      exact ⟨_, objects_pushObject.mpr (.inl ⟨hk, rfl⟩), hp⟩
    · rintro ⟨o, ho, hkey'⟩
      rcases objects_pushObject.mp ho with ⟨hk, -⟩ | ⟨-, ho⟩
      · exact hk
      · cases hnone.symm.trans ((h p k).mpr ⟨o, ho, hkey'⟩)
  · rw [if_neg hp, h p k]
    constructor
    · rintro ⟨o, ho, hkey'⟩
      refine ⟨o, objects_pushObject.mpr (.inr ⟨?_, ho⟩), hkey'⟩
      rintro rfl
      cases hfree.symm.trans ho
    · rintro ⟨o, ho, hkey'⟩
      rcases objects_pushObject.mp ho with ⟨-, rfl⟩ | ⟨-, ho⟩
      · exact absurd hkey' hp
      · exact ⟨o, ho, hkey'⟩

end Table.Indexed

structure Table.Sound (t : Table) : Prop where
  columns : Columns.Consistent t.nextColumn t.columns
  keyColumn : ∀ d, t.keyDef = some d → ∃ c ∈ t.columns, d.HeldBy c.definition
  object : ∀ (k : ObjectKey) (o : Object), t.objects[k]? = some o → o.Complete t k
  index : ∀ (p : PrimaryKey) (k : ObjectKey), t.keyIndex[p]? = some k ↔
    ∃ o, t.objects[k]? = some o ∧ o.primaryKey = some p

namespace Table.Sound
variable {t u : Table} {d : ColumnDef}

theorem indexed (h : t.Sound) : t.Indexed := h.index

theorem filled (h : t.Sound) : t.Filled where
  keys_nodup := h.columns.keys_nodup
  names_nodup := h.columns.names_nodup
  valid := h.columns.valid
  keyColumn := h.keyColumn
  object k o ho := (h.object k o ho).fills

theorem consistent (h : t.Sound) : t.Consistent where
  columns := h.columns
  keyColumn d hd := by
    obtain ⟨c, hc, hheld⟩ := h.keyColumn d hd
    exact ⟨c, hc, hheld.name⟩
  object := h.object
  primaryKey_unique _ _ _ _ _ ha hb hp hq := h.indexed.unique ha hb hp hq

/-- Besides being filled, a sound table has all its keys below its counters, and its objects under
their keys. -/
theorem of_filled (h : t.Filled) (hlt : ∀ c ∈ t.columns, c.key.index < t.nextColumn)
    (hplaced : ∀ (k : ObjectKey) (o : Object), t.objects[k]? = some o → o.Placed t k)
    (hindex : t.Indexed) : t.Sound where
  columns := ⟨hlt, h.keys_nodup, h.names_nodup, h.valid⟩
  keyColumn := h.keyColumn
  object k o ho :=
    { hplaced k o ho with
      cell := (h.object k o ho).cell
      column := (h.object k o ho).column }
  index := hindex

/-- A change of objects one by one, which leaves their primary keys alone. -/
theorem of_mapped {f : ObjectKey → Object → Object} (h : t.Sound) (hu : u.Filled)
    (hlt : ∀ c ∈ u.columns, c.key.index < u.nextColumn) (hkeyDef : u.keyDef = t.keyDef)
    (hname : u.name = t.name) (hnext : u.nextObject = t.nextObject)
    (hindex : u.keyIndex = t.keyIndex)
    (hobjects : ∀ k : ObjectKey, u.objects[k]? = (t.objects[k]?).map (f k))
    (hkey : ∀ k o, (f k o).key = o.key) (hprimary : ∀ k o, (f k o).primaryKey = o.primaryKey) :
    u.Sound := by
  refine of_filled hu hlt (fun k o ho => ?_) (h.indexed.of_mapped hindex hobjects hprimary)
  rw [hobjects, Option.map_eq_some_iff] at ho
  obtain ⟨o, ho, rfl⟩ := ho
  exact (h.object k o ho).placed.of_schema (hkey k o) (hprimary k o) hkeyDef hname
    (UInt64.le_of_eq hnext.symm)

theorem blank (key : TableKey) (name : String) (keyDef : Option KeyDef) :
    (Table.blank key name keyDef).Sound := by
  refine of_filled (.blank key name keyDef) ?_ ?_ ?_ <;>
    cases keyDef <;> simp [Table.blank, Indexed]

theorem withColumn (h : t.Sound) (hd : d.validate = .ok ()) (hfresh : t.column? d.name = none)
    (hroom : t.nextColumn.toNat + 1 < UInt32.size) : (t.withColumn d).Sound := by
  have hnext := lt_add_one_of_room hroom
  have hfree : ∀ c ∈ t.columns, c.key ≠ ⟨t.nextColumn⟩ := by
    intro c hc heq
    exact UInt32.lt_irrefl _ (heq ▸ h.columns.key_lt c hc)
  refine h.of_mapped (u := t.withColumn d)
    (f := fun _ o => { o with fields := o.fields.insert ⟨t.nextColumn⟩ (.empty d) })
    (h.filled.withColumn hd hfresh hfree) (fun c hc => ?_) rfl rfl rfl rfl
    (fun _ => objects_withColumn) (fun _ _ => rfl) fun _ _ => rfl
  rcases List.mem_append.mp hc with hc | hc
  · exact UInt32.lt_trans (h.columns.key_lt c hc) hnext
  · cases List.mem_singleton.mp hc
    exact hnext

theorem dropColumn {column : ColumnKey} (h : t.Sound) (hd : t.columnDef column = .ok d)
    (hnoKey : t.isKeyColumn d = false) : (t.dropColumn column).Sound :=
  h.of_mapped (u := t.dropColumn column)
    (f := fun _ o => { o with fields := o.fields.erase column }) (h.filled.dropColumn hd hnoKey)
    (fun c hc => h.columns.key_lt c (List.mem_filter.mp hc).1) rfl rfl rfl rfl
    (fun _ => objects_dropColumn) (fun _ _ => rfl) fun _ _ => rfl

theorem setCell {object : ObjectKey} {column : ColumnKey} {c : Cell} (h : t.Sound)
    (hd : t.columnDef column = .ok d) (hc : c.Fits d) : (t.setCell object column c).Sound := by
  refine h.of_mapped (u := t.setCell object column c)
    (f := fun k o => if k = object then { o with fields := o.fields.insert column c } else o)
    (h.filled.setCell hd hc) h.columns.key_lt rfl rfl rfl rfl (fun _ => objects_setCell)
    (fun k o => ?_) fun k o => ?_
  all_goals
    split <;> rfl

theorem dropLinks (h : t.Sound) (target : String) (object : ObjectKey) :
    (t.dropLinks target object).Sound :=
  h.of_mapped (u := t.dropLinks target object)
    (f := fun _ o => { o with fields := o.fields.map fun column c =>
      if column ∈ t.linkColumns target then c.withoutLink object else c })
    (h.filled.dropLinks target object) h.columns.key_lt rfl rfl rfl rfl
    (fun _ => objects_dropLinks) (fun _ _ => rfl) fun _ _ => rfl

theorem dropObject (h : t.Sound) (object : ObjectKey) : (t.dropObject object).Sound := by
  refine of_filled (h.filled.dropObject object) h.columns.key_lt (fun k o ho => ?_)
    (h.indexed.dropObject object)
  obtain ⟨-, ho⟩ := objects_dropObject.mp ho
  exact (h.object k o ho).placed.of_schema rfl rfl rfl rfl (UInt64.le_refl _)

theorem objects_next (h : t.Sound) : t.objects[(⟨t.nextObject⟩ : ObjectKey)]? = none := by
  cases ho : t.objects[(⟨t.nextObject⟩ : ObjectKey)]? with
  | none => rfl
  | some o => exact absurd (h.object _ o ho).key_lt (UInt64.lt_irrefl _)

theorem pushObject {key : Option PrimaryKey} (h : t.Sound)
    (hkey : Store.checkNewKey t key = .ok ()) (hroom : t.nextObject.toNat + 1 < UInt64.size) :
    (t.pushObject key).2.Sound := by
  have hnext := objectKey_lt_add_one hroom
  obtain ⟨hkeyed, hunkeyed, -⟩ := Store.checkNewKey_ok_iff.mp hkey
  refine of_filled (h.filled.pushObject hkey) h.columns.key_lt (fun k o ho => ?_)
    (h.indexed.pushObject hkey h.objects_next)
  rcases objects_pushObject.mp ho with ⟨rfl, rfl⟩ | ⟨-, ho⟩
  · exact ⟨rfl, hnext, hkeyed, hunkeyed⟩
  · exact (h.object k o ho).placed.of_schema rfl rfl rfl rfl (UInt64.le_of_lt hnext)

end Table.Sound

end ChangesetReplay
