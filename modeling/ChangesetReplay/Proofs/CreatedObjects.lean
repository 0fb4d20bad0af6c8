import ChangesetReplay.Proofs.CellWrites
import ChangesetReplay.Proofs.StoreHistories

/-! # Created objects

Which primary keys a new object may have, told by the key definition and by the objects that are
there, and what it then has: one cell for each column, and nothing of the objects before it. That a
key is in use is looked up in the index; so what was erased must be gone from it. -/

namespace ChangesetReplay

/-- The primary keys that a definition admits: null where keys may be null, and those of its type. -/
inductive KeyDef.Admits (d : KeyDef) : PrimaryKey → Prop where
  | null (nullable : d.nullable = true) : d.Admits .null
  | int (n : Int64) (type : d.type = .int) : d.Admits (.int n)
  | string (text : String) (type : d.type = .string) : d.Admits (.string text)

theorem KeyDef.admits_iff {d : KeyDef} {p : PrimaryKey} : d.Admits p ↔
    p = .null ∧ d.nullable = true ∨ (∃ n, p = .int n ∧ d.type = .int) ∨
      ∃ text, p = .string text ∧ d.type = .string := by
  constructor
  · intro h
    cases h with
    | null nullable => exact .inl ⟨rfl, nullable⟩
    | int n type => exact .inr (.inl ⟨n, rfl, type⟩)
    | string text type => exact .inr (.inr ⟨text, rfl, type⟩)
  · rintro (⟨rfl, hnull⟩ | ⟨n, rfl, htype⟩ | ⟨text, rfl, htype⟩)
    · exact .null hnull
    · exact .int n htype
    · exact .string text htype

theorem KeyDef.check_ok_iff {d : KeyDef} {table : String} {key : Option PrimaryKey} :
    d.check table key = .ok () ↔ ∃ p, key = some p ∧ d.Admits p := by
  obtain ⟨column, type, nullable⟩ := d
  cases key with
  | none => cases type <;> simp [check]
  | some p => cases p <;> cases type <;> cases nullable <;> simp [check, admits_iff]

namespace Table

/-- What a new object of the table may be given as its primary key: none if the table has no key
definition, and else a key that the definition admits and no object of the table has. -/
inductive Accepts (t : Table) : Option PrimaryKey → Prop where
  | unkeyed (keyDef : t.keyDef = none) : t.Accepts none
  | keyed {d : KeyDef} {p : PrimaryKey} (keyDef : t.keyDef = some d) (admits : d.Admits p)
      (unused : ∀ (j : ObjectKey) (o : Object), t.objects[j]? = some o → o.primaryKey ≠ some p) :
      t.Accepts (some p)

variable {t u : Table} {key : Option PrimaryKey} {p : PrimaryKey}

theorem Indexed.not_mem_keyIndex_iff (h : t.Indexed) : p ∉ t.keyIndex ↔
    ∀ (j : ObjectKey) (o : Object), t.objects[j]? = some o → o.primaryKey ≠ some p := by
  rw [FiniteMap.mem_iff_exists]
  constructor
  · exact fun hnot j o ho hp => hnot ⟨j, (h p j).mpr ⟨o, ho, hp⟩⟩
  · rintro hunused ⟨j, hj⟩
    obtain ⟨o, ho, hp⟩ := (h p j).mp hj
    exact hunused j o ho hp

/-- The check of a new key accepts what the objects that are there allow. -/
theorem Indexed.checkNewKey_ok_iff (h : t.Indexed) :
    Store.checkNewKey t key = .ok () ↔ t.Accepts key := by
  simp only [Store.checkNewKey_ok_iff, KeyDef.check_ok_iff, h.not_mem_keyIndex_iff]
  constructor
  · rintro ⟨hkeyed, hunkeyed, hunused⟩
    cases hd : t.keyDef with
    | none =>
      rw [hunkeyed hd]
      exact .unkeyed hd
    | some d =>
      obtain ⟨p, rfl, hadmits⟩ := hkeyed d hd
      exact .keyed hd hadmits (hunused p rfl)
  · intro haccepts
    cases haccepts with
    | unkeyed hd => simp [hd]
    | @keyed d p hd hadmits hunused =>
      refine ⟨fun d' hd' => ?_, fun hd' => ?_, fun q hq => ?_⟩
      · cases hd.symm.trans hd'
        exact ⟨p, rfl, hadmits⟩
      · cases hd.symm.trans hd'
      · cases hq
        exact hunused

end Table

/-- A new object of a table: its primary key stands in the key column too, and its other cells are
empty lists and default values. Each column has one cell, which fits, and no other cell is there. -/
structure Object.Initial (t : Table) (x : ObjectKey) (key : Option PrimaryKey) (o : Object) : Prop
    where
  key_eq : o.key = x
  primaryKey : o.primaryKey = key
  keyCell : ∀ c ∈ t.columns, ∀ d p, t.keyDef = some d → key = some p →
    c.definition.name = d.column → o.fields[c.key]? = some (.scalar p.toValue)
  list : ∀ c ∈ t.columns, c.definition.isList = true → o.fields[c.key]? = some (.list [])
  single : ∀ c ∈ t.columns, c.definition.isList = false →
    (∀ d, t.keyDef = some d → d.column ≠ c.definition.name) →
      o.fields[c.key]? = some (.scalar c.definition.defaultValue)
  fills : o.Fills t.columns

/-- What a table becomes when an object is created in it under the key `x`. -/
structure Table.Gains (x : ObjectKey) (key : Option PrimaryKey) (t u : Table) : Prop where
  rest : u = { t with objects := u.objects, nextObject := u.nextObject, keyIndex := u.keyIndex }
  next : x.index = t.nextObject
  counter : u.nextObject.toNat = t.nextObject.toNat + 1
  fresh : x ∉ t.objects
  object : ∃ o, u.objects[x]? = some o ∧ o.Initial t x key
  otherObject : ∀ y : ObjectKey, y ≠ x → u.objects[y]? = t.objects[y]?
  entry : ∀ p, key = some p → p ∉ t.keyIndex ∧ u.keyIndex[p]? = some x
  otherEntry : ∀ p, key ≠ some p → u.keyIndex[p]? = t.keyIndex[p]?

namespace Table
variable {t : Table} {key : Option PrimaryKey}

theorem newCell_of_not_key {d : ColumnDef} (h : ∀ k, t.keyDef = some k → k.column ≠ d.name) :
    t.newCell d key = .empty d := by
  have hnoKey : t.isKeyColumn d = false := by
    rw [← Bool.not_eq_true, isKeyColumn_iff]
    simpa using h
  cases key with
  | none => rfl
  | some p => simp [newCell, hnoKey]

theorem Filled.initial (h : t.Filled) (hkey : Store.checkNewKey t key = .ok ()) (x : ObjectKey) :
    Object.Initial t x key ⟨x, key, t.newFields key⟩ where
  key_eq := rfl
  primaryKey := rfl
  keyCell c hc d p hd hp hname := by
    have hcolumn : t.isKeyColumn c.definition = true := isKeyColumn_iff.mpr ⟨d, hd, hname.symm⟩
    rw [newFields_getElem? h.keys_nodup hc, hp]
    simp [newCell, hcolumn]
  list c hc hlist := by
    have hnotKey : ∀ d, t.keyDef = some d → d.column ≠ c.definition.name := by
      intro d hd hname
      obtain ⟨a, ha, hheld⟩ := h.keyColumn d hd
      cases h.eq_of_name ha hc (hheld.name.trans hname)
      simp [hheld.single] at hlist
    rw [newFields_getElem? h.keys_nodup hc, newCell_of_not_key hnotKey, Cell.empty, if_pos hlist]
  single c hc hsingle hnotKey := by
    rw [newFields_getElem? h.keys_nodup hc, newCell_of_not_key hnotKey, Cell.empty, hsingle]
    rfl
  fills := ⟨fun c hc => ⟨_, newFields_getElem? h.keys_nodup hc, h.newCell_fits hkey hc⟩,
    fun _ hj => mem_newFields.mp hj⟩

theorem Filled.gains (h : t.Filled) (hkey : Store.checkNewKey t key = .ok ())
    (hfree : ⟨t.nextObject⟩ ∉ t.objects) (hroom : t.nextObject.toNat + 1 < UInt64.size) :
    t.Gains ⟨t.nextObject⟩ key (t.pushObject key).2 where
  rest := rfl
  next := rfl
  counter := by
    show (t.nextObject + 1).toNat = t.nextObject.toNat + 1
    rw [UInt64.toNat_add]
    exact Nat.mod_eq_of_lt hroom
  fresh := hfree
  object := ⟨_, objects_pushObject.mpr (.inl ⟨rfl, rfl⟩), h.initial hkey _⟩
  otherObject y hy := by
    refine Option.ext fun o => ?_
    rw [objects_pushObject]
    simp [hy.symm]
  entry p hp := by
    rw [keyIndex_pushObject, if_pos hp]
    exact ⟨(Store.checkNewKey_ok_iff.mp hkey).2.2 p hp, rfl⟩
  otherEntry p hp := by rw [keyIndex_pushObject, if_neg hp]

end Table

namespace Store
variable {s s' : Store} {k : TableKey}

def ObjectsBelow (k : TableKey) (s : Store) : Prop :=
  ∀ t, s.tables[k]? = some t → ∀ j ∈ t.objects, j.index < t.nextObject

def ObjectRoomFor (k : TableKey) (s s' : Store) : Prop :=
  ∀ t u, s.tables[k]? = some t → s'.tables[k]? = some u → u.nextObject ≠ t.nextObject →
    t.nextObject.toNat + 1 < UInt64.size

theorem ObjectsBelow.putTable {j : TableKey} {t u : Table} (h : s.ObjectsBelow k)
    (ht : s.tables[j]? = some t) (hnext : u.nextObject = t.nextObject)
    (hobjects : ∀ i ∈ u.objects, i ∈ t.objects) : (s.putTable j u).ObjectsBelow k := by
  intro v hv i hi
  rcases tables_putTable.mp hv with ⟨rfl, rfl⟩ | ⟨-, hv⟩
  · rw [hnext]
    exact h t ht i (hobjects i hi)
  · exact h v hv i hi

theorem ObjectsBelow.dropLinks (h : s.ObjectsBelow k) (target : String) (object : ObjectKey) :
    (s.dropLinks target object).ObjectsBelow k := by
  intro v hv i hi
  rw [tables_dropLinks, Option.map_eq_some_iff] at hv
  obtain ⟨w, hw, rfl⟩ := hv
  exact h w hw i (by simpa [Table.dropLinks, Table.mapObjects] using hi)

/-- Validation asks that the objects are below the counter. -/
theorem RestoresTo.objectsBelow (h : s.RestoresTo s') : s'.ObjectsBelow k := by
  obtain ⟨x, -, hx, rfl⟩ := h
  intro u hu j hj
  obtain ⟨t, ht, -, rfl⟩ := (Snapshot.tables_store hx).mp hu
  obtain ⟨o, ho⟩ := FiniteMap.mem_iff_exists.mp hj
  exact ((hx.table t ht).object j o ho).key_lt

/-- Each change keeps the objects of a table below its counter, unless that runs over. -/
theorem Change.objectsBelow (hc : Change s s') (h : s.ObjectsBelow k)
    (hroom : s.ObjectRoomFor k s') : s'.ObjectsBelow k := by
  cases hc with
  | addTable name keyDef fresh free =>
    intro v hv i hi
    rcases tables_putTable.mp hv with ⟨rfl, rfl⟩ | ⟨-, hv⟩
    · cases keyDef <;> simp [Table.blank] at hi
    · exact h v hv i hi
  | eraseTable untargeted =>
    exact fun v hv => h v (FiniteMap.erase_eq_some_iff.mp hv).2
  | addColumn found valid fresh free target =>
    exact h.putTable found rfl (by simp [Table.withColumn, Table.mapObjects])
  | eraseColumn found defined noKey =>
    exact h.putTable found rfl (by simp [Table.dropColumn, Table.mapObjects])
  | @createObject j t key found admitted free =>
    intro v hv i hi
    rcases tables_putTable.mp hv with ⟨rfl, rfl⟩ | ⟨-, hv⟩
    · have hmoved : t.nextObject + 1 ≠ t.nextObject := by simp
      have hnext := objectKey_lt_add_one (hroom t _ found tables_putTable_self hmoved)
      obtain ⟨o, ho⟩ := FiniteMap.mem_iff_exists.mp hi
      rcases Table.objects_pushObject.mp ho with ⟨rfl, -⟩ | ⟨-, ho⟩
      · exact hnext
      · exact UInt64.lt_trans (h t found i (FiniteMap.mem_iff_exists.mpr ⟨o, ho⟩)) hnext
    · exact h v hv i hi
  | @eraseObject j t object found present =>
    refine (h.putTable (u := t.dropObject object) found rfl fun i hi => ?_).dropLinks _ _
    exact Std.ExtTreeMap.mem_of_mem_erase hi
  | setScalar place single noKey fits =>
    rw [putCell_eq place.table] at hroom ⊢
    exact h.putTable place.table rfl fun _ => Table.mem_objects_setCell.mp
  | editList place fits =>
    rw [putCell_eq place.table] at hroom ⊢
    exact h.putTable place.table rfl fun _ => Table.mem_objects_setCell.mp

end Store

namespace Turn
variable {s : Store} {k : TableKey} {turns : List Turn}

/-- No turn of the history moves the counter of objects of the table `k` when it has come to its
last value. -/
def ObjectsInRange (k : TableKey) (s : Store) : List Turn → Prop
  | [] => True
  | turn :: rest => s.ObjectRoomFor k (turn.after s) ∧ ObjectsInRange k (turn.after s) rest

theorem InRange.objectsInRange (h : InRange s turns) : ObjectsInRange k s turns := by
  induction turns generalizing s with
  | nil => trivial
  | cons turn rest ih => exact ⟨h.1.object k, ih h.2⟩

theorem afterAll_objectsBelow (h : s.ObjectsBelow k) (hrange : ObjectsInRange k s turns) :
    (afterAll s turns).ObjectsBelow k := by
  induction turns generalizing s with
  | nil => exact h
  | cons turn rest ih =>
    have hnext : (turn.after s).ObjectsBelow k := by
      cases turn with
      | operate op =>
        have hroom := hrange.1
        show (op.after s).ObjectsBelow k
        rcases op.change s with hsame | hchange
        · rwa [hsame]
        · exact hchange.objectsBelow h hroom
      | restore transport =>
        rcases after_restore_cases s transport with hsame | hrestored
        · rwa [hsame]
        · exact hrestored.objectsBelow
    exact ih hnext hrange.2

end Turn

namespace Store
variable {s : Store}

/-- As long as the counter of objects has not run over, an object is created with a primary key
exactly if the table accepts it, and then nothing changes but what the table gains. -/
theorem object_created_exactly (v : SchemaVersion) (turns : List Turn)
    (hs : Turn.afterAll (.new v) turns = s) (k : TableKey) (key : Option PrimaryKey)
    (hrange : Turn.ObjectsInRange k (.new v) turns)
    (hroom : ∀ t, s.tables[k]? = some t → t.nextObject.toNat + 1 < UInt64.size) :
    ((∃ x s', createObject k key s = .ok x s') ↔ ∃ t, s.tables[k]? = some t ∧ t.Accepts key) ∧
      ∀ x s', createObject k key s = .ok x s' →
        ∃ t u, s.Replaces k t u s' ∧ t.Gains x key u := by
  have hintact : s.Intact := hs ▸ Turn.afterAll_intact (.new v)
  have hbelow : s.ObjectsBelow k :=
    hs ▸ Turn.afterAll_objectsBelow (by simp [ObjectsBelow, new]) hrange
  have hcheck : ∀ {t}, s.tables[k]? = some t → (checkNewKey t key = .ok () ↔ t.Accepts key) :=
    fun ht => (hintact.coherent.table k _ ht).indexed.checkNewKey_ok_iff
  refine ⟨⟨?_, ?_⟩, ?_⟩
  · rintro ⟨x, s', h⟩
    obtain ⟨t, ht, hkey, -⟩ := createObject_ok_iff.mp h
    exact ⟨t, ht, (hcheck ht).mp hkey⟩
  · rintro ⟨t, ht, haccepts⟩
    have hfree : ⟨t.nextObject⟩ ∉ t.objects := fun hmem => UInt64.lt_irrefl _ (hbelow t ht _ hmem)
    exact ⟨_, _, createObject_ok_iff.mpr ⟨t, ht, (hcheck ht).mpr haccepts, hfree, rfl, rfl⟩⟩
  · intro x s' h
    obtain ⟨t, ht, hkey, hfree, rfl, rfl⟩ := createObject_ok_iff.mp h
    exact ⟨t, _, (replaces_iff ht).mpr rfl,
      (hintact.filled.table k t ht).gains hkey hfree (hroom t ht)⟩

def dismissal : List Turn :=
  teamOperations.map .operate ++ [.operate (.call (.eraseObject ⟨1⟩ ⟨0⟩))]

/-- A new member is taken under the number of the one who was dismissed. -/
theorem object_created_exactly_dismissal :
    let s := Turn.afterAll (.new 1) dismissal
    Turn.ObjectsInRange ⟨1⟩ (.new 1) dismissal ∧
      (∃ t, s.tables[(⟨1⟩ : TableKey)]? = some t ∧ t.nextObject.toNat + 1 < UInt64.size ∧
        t.Accepts (some (.int 7))) ∧
      ∃ s', createObject ⟨1⟩ (some (.int 7)) s = .ok ⟨1⟩ s' ∧
        ∃ t u, s.Replaces ⟨1⟩ t u s' ∧ t.Gains ⟨1⟩ (some (.int 7)) u := by
  intro s
  have hroomy : Turn.Roomy (.new 1) dismissal := by decide
  have hrange : Turn.ObjectsInRange ⟨1⟩ (.new 1) dismissal := hroomy.inRange.objectsInRange
  have hroom : s.HasRoom := by decide
  obtain ⟨haccepted, hgains⟩ := object_created_exactly 1 dismissal rfl ⟨1⟩ (some (.int 7))
    hrange fun t ht => hroom.object ⟨1⟩ t ht
  have hcreated : ∃ s', createObject ⟨1⟩ (some (.int 7)) s = .ok ⟨1⟩ s' := ⟨_, rfl⟩
  obtain ⟨s', hdone⟩ := hcreated
  obtain ⟨t, ht, haccepts⟩ := haccepted.mp ⟨⟨1⟩, s', hdone⟩
  exact ⟨hrange, ⟨t, ht, hroom.object ⟨1⟩ t ht, haccepts⟩, s', hdone,
    hgains ⟨1⟩ s' hdone⟩

end Store
end ChangesetReplay
