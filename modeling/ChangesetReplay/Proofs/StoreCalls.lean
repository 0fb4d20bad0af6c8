import ChangesetReplay.Proofs.StoreActions

/-! # Calls of a store

The calls that write a store, as data. A failed call leaves the store as it was, and a successful
one changes it in one of eight ways, each with what was checked before. -/

namespace ChangesetReplay

namespace Sequence
variable {α : Type} {a b : α} {i j : Nat} {l l' : List α}

theorem at?_ok_iff : at? l i = .ok a ↔ l[i]? = some a := by
  unfold at?
  cases l[i]? with
  | none => simp [outOfBounds]
  | some b => simp

theorem mem_of_insert (h : insert i a l = .ok l') (hb : b ∈ l') : b ∈ l ∨ b = a := by
  unfold insert at h
  split at h
  · rename_i hi
    cases h
    exact ((List.mem_insertIdx hi).mp hb).symm
  · simp [outOfBounds] at h

theorem mem_of_set (h : set i a l = .ok l') (hb : b ∈ l') : b ∈ l ∨ b = a := by
  unfold set at h
  split at h
  · cases h
    exact List.mem_or_eq_of_mem_set hb
  · simp [outOfBounds] at h

theorem mem_of_erase (h : erase i l = .ok l') (hb : b ∈ l') : b ∈ l := by
  unfold erase at h
  split at h
  · cases h
    exact List.mem_of_mem_eraseIdx hb
  · simp [outOfBounds] at h

theorem mem_of_move (h : move i j l = .ok l') (hb : b ∈ l') : b ∈ l := by
  simp only [move, Reading.bind_ok_iff, at?_ok_iff] at h
  obtain ⟨a, ha, h⟩ := h
  split at h
  · rename_i hj
    cases h
    have hi : i < l.length := (List.getElem?_eq_some_iff.mp ha).1
    have hlen : j ≤ (l.eraseIdx i).length := by
      rw [List.length_eraseIdx_of_lt hi]
      omega
    rcases (List.mem_insertIdx hlen).mp hb with rfl | hb
    · exact List.mem_of_getElem? ha
    · exact List.mem_of_mem_eraseIdx hb
  · simp [outOfBounds] at h

theorem mem_of_swap (h : swap i j l = .ok l') (hc : b ∈ l') : b ∈ l := by
  simp only [swap, Reading.bind_ok_iff, at?_ok_iff, Except.ok.injEq] at h
  obtain ⟨x, hx, y, hy, rfl⟩ := h
  rcases List.mem_or_eq_of_mem_set hc with hc | rfl
  · rcases List.mem_or_eq_of_mem_set hc with hc | rfl
    · exact hc
    · exact List.mem_of_getElem? hy
  · exact List.mem_of_getElem? hx

end Sequence

namespace Store

open ActionLaws

/-- A writing call with its arguments. The reading calls are functions of the store. -/
inductive Call where
  | addTable (name : String) (keyDef : Option KeyDef)
  | eraseTable (table : TableKey)
  | addColumn (table : TableKey) (d : ColumnDef)
  | eraseColumn (table : TableKey) (column : ColumnKey)
  | createObject (table : TableKey) (key : Option PrimaryKey)
  | eraseObject (table : TableKey) (object : ObjectKey)
  | setScalar (f : FieldRef) (v : Value)
  | addInt (f : FieldRef) (delta : Int64)
  | listInsert (f : FieldRef) (i : Nat) (v : Value)
  | listSet (f : FieldRef) (i : Nat) (v : Value)
  | listErase (f : FieldRef) (i : Nat)
  | listMove (f : FieldRef) (source target : Nat)
  | listSwap (f : FieldRef) (i j : Nat)
  | listClear (f : FieldRef)
deriving DecidableEq

inductive Answer where
  | done
  | table (key : TableKey)
  | column (key : ColumnKey)
  | object (key : ObjectKey)
  | sum (n : Int64)
deriving DecidableEq

def Call.run : Call → Action Answer
  | addTable name keyDef => .table <$> Store.addTable name keyDef
  | eraseTable table => (fun _ => .done) <$> Store.eraseTable table
  | addColumn table d => .column <$> Store.addColumn table d
  | eraseColumn table column => (fun _ => .done) <$> Store.eraseColumn table column
  | createObject table key => .object <$> Store.createObject table key
  | eraseObject table object => (fun _ => .done) <$> Store.eraseObject table object
  | setScalar f v => (fun _ => .done) <$> Store.setScalar f v
  | addInt f delta => .sum <$> Store.addInt f delta
  | listInsert f i v => (fun _ => .done) <$> Store.listInsert f i v
  | listSet f i v => (fun _ => .done) <$> Store.listSet f i v
  | listErase f i => (fun _ => .done) <$> Store.listErase f i
  | listMove f source target => (fun _ => .done) <$> Store.listMove f source target
  | listSwap f i j => (fun _ => .done) <$> Store.listSwap f i j
  | listClear f => (fun _ => .done) <$> Store.listClear f

theorem addTable_atomic (name : String) (keyDef : Option KeyDef) :
    Atomic (addTable name keyDef) := by
  simp only [addTable, throw_bind]
  refine .bind .get fun s => .guard (.guard (.bind (.read _) fun t => .of_total ?_) _) _
  exact .bind (.modify _) fun _ => .bind (.modify _) fun _ => .pure _

theorem eraseTable_atomic (table : TableKey) : Atomic (eraseTable table) := by
  refine .bind (.read _) fun origins => ?_
  cases origins with
  | nil => exact .of_total (.modify _)
  | cons origin rest => exact .bind (.read _) fun _ => .throw _

theorem addColumn_atomic (table : TableKey) (d : ColumnDef) : Atomic (addColumn table d) := by
  have hrest : Atomic (do
      let t ← Action.read (·.table table)
      if (t.column? d.name).isSome then throw (.columnExists t.name d.name)
      let r ← Action.read fun _ => t.pushColumn d
      modify (·.putTable table r.2)
      return r.1 : Action ColumnKey) := by
    simp only [throw_bind]
    refine .bind (.read _) fun t => .guard (.bind (.read _) fun _ => .of_total ?_) _
    exact .bind (.modify _) fun _ => .pure _
  simp only [addColumn, throw_bind] at hrest ⊢
  refine .bind (.read _) fun _ => ?_
  cases d.linkTarget with
  | none => exact hrest
  | some target => exact .bind .get fun s => .guard hrest _

theorem eraseColumn_atomic (table : TableKey) (column : ColumnKey) :
    Atomic (eraseColumn table column) := by
  simp only [eraseColumn, throw_bind]
  exact .bind (.read _) fun t => .bind (.read _) fun d => .guard (.of_total (.modify _)) _

theorem createObject_atomic (table : TableKey) (key : Option PrimaryKey) :
    Atomic (createObject table key) := by
  simp only [createObject, throw_bind]
  refine .bind (.read _) fun t => .bind (.read _) fun _ => .guard (.of_total ?_) _
  exact .bind (.modify _) fun _ => .pure _

theorem eraseObject_atomic (table : TableKey) (object : ObjectKey) :
    Atomic (eraseObject table object) := by
  simp only [eraseObject, throw_bind]
  refine .bind (.read _) fun t => .guard (.of_total ?_) _
  exact .bind (.modify _) fun _ => .modify _

theorem setScalar_atomic (f : FieldRef) (v : Value) : Atomic (setScalar f v) :=
  .bind (.read _) fun _ => .bind (.read _) fun _ => .bind (.read _) fun _ => .of_total (.modify _)

theorem addInt_atomic (f : FieldRef) (delta : Int64) : Atomic (addInt f delta) := by
  refine .bind (.read _) fun d => .bind (.read _) fun c => ?_
  cases c with
  | list items => exact .throw _
  | scalar v =>
    cases v with
    | int n => exact .of_total (.bind (.modify _) fun _ => .pure _)
    | _ => exact .throw _

theorem editList_atomic (f : FieldRef) (edit : List Value → Except Cause (List Value)) :
    Atomic (editList f edit) :=
  .bind (.read _) fun _ => .bind (.read _) fun _ => .of_total (.modify _)

theorem checkElement_readOnly (f : FieldRef) (v : Value) : ReadOnly (checkElement f v) :=
  .bind (.read _) fun _ => .read _

theorem checkedEdit_atomic (f : FieldRef) (v : Value)
    (edit : List Value → Except Cause (List Value)) :
    Atomic (checkElement f v >>= fun _ => editList f edit) :=
  .bind (checkElement_readOnly f v) fun _ => editList_atomic f edit

/-- A failed call leaves the store as it was. -/
theorem Call.run_atomic (call : Call) : Atomic call.run := by
  cases call with
  | addTable name keyDef => exact (addTable_atomic name keyDef).map _
  | eraseTable table => exact (eraseTable_atomic table).map _
  | addColumn table d => exact (addColumn_atomic table d).map _
  | eraseColumn table column => exact (eraseColumn_atomic table column).map _
  | createObject table key => exact (createObject_atomic table key).map _
  | eraseObject table object => exact (eraseObject_atomic table object).map _
  | setScalar f v => exact (setScalar_atomic f v).map _
  | addInt f delta => exact (addInt_atomic f delta).map _
  | listInsert f i v => exact (checkedEdit_atomic f v _).map _
  | listSet f i v => exact (checkedEdit_atomic f v _).map _
  | listErase f i => exact (editList_atomic f _).map _
  | listMove f source target => exact (editList_atomic f _).map _
  | listSwap f i j => exact (editList_atomic f _).map _
  | listClear f => exact (editList_atomic f _).map _

/-- The ways in which a successful call changes a store. -/
inductive Change (s : Store) : Store → Prop where
  | addTable (name : String) (keyDef : Option KeyDef) (fresh : s.findTable name = none)
      (free : ⟨s.nextTable⟩ ∉ s.tables) :
      Change s ({ s with nextTable := s.nextTable + 1 }.putTable ⟨s.nextTable⟩
        (.blank ⟨s.nextTable⟩ name keyDef))
  | eraseTable {k : TableKey} (untargeted : s.linkOrigins k = .ok []) :
      Change s { s with tables := s.tables.erase k }
  | addColumn {k : TableKey} {t : Table} {d : ColumnDef} (found : s.tables[k]? = some t)
      (valid : d.validate = .ok ()) (fresh : t.column? d.name = none)
      (free : ∀ c ∈ t.columns, c.key ≠ ⟨t.nextColumn⟩)
      (target : ∀ target, d.linkTarget = some target → s.findTable target ≠ none) :
      Change s (s.putTable k (t.withColumn d))
  | eraseColumn {k : TableKey} {t : Table} {column : ColumnKey} {d : ColumnDef}
      (found : s.tables[k]? = some t) (defined : t.columnDef column = .ok d)
      (noKey : t.isKeyColumn d = false) :
      Change s (s.putTable k (t.dropColumn column))
  | createObject {k : TableKey} {t : Table} {key : Option PrimaryKey}
      (found : s.tables[k]? = some t) (admitted : checkNewKey t key = .ok ())
      (free : ⟨t.nextObject⟩ ∉ t.objects) :
      Change s (s.putTable k (t.pushObject key).2)
  | eraseObject {k : TableKey} {t : Table} {object : ObjectKey} (found : s.tables[k]? = some t)
      (present : object ∈ t.objects) :
      Change s ((s.putTable k (t.dropObject object)).dropLinks t.name object)
  | setScalar {f : FieldRef} {t : Table} {d : ColumnDef} {o : Object} {c : Cell} {v : Value}
      (place : s.CellAt f t d o c) (single : d.isList = false) (noKey : t.isKeyColumn d = false)
      (fits : s.checkValue d v = .ok () ∨ ∃ m n, c = .scalar (.int m) ∧ v = .int n) :
      Change s (s.putCell f (.scalar v))
  | editList {f : FieldRef} {t : Table} {d : ColumnDef} {o : Object} {l l' : List Value}
      (place : s.CellAt f t d o (.list l))
      (fits : ∀ v ∈ l', v ∈ l ∨ s.checkValue d v = .ok ()) :
      Change s (s.putCell f (.list l'))

theorem editList_change {s s' : Store} {f : FieldRef}
    {edit : List Value → Except Cause (List Value)} {u : Unit} (h : editList f edit s = .ok u s')
    (hedit : ∀ t d, s.tables[f.table]? = some t → t.columnDef f.column = .ok d →
      ∀ l l', edit l = .ok l' → ∀ v ∈ l', v ∈ l ∨ s.checkValue d v = .ok ()) : Change s s' := by
  obtain ⟨l, l', hl, hl', rfl⟩ := editList_ok_iff.mp h
  obtain ⟨t, d, o, hat⟩ := items_ok_iff.mp hl
  exact .editList hat (hedit t d hat.table hat.column l l' hl')

/-- An edit that puts a checked element into a list. -/
theorem checkElement_editList_change {s s' : Store} {f : FieldRef} {v : Value}
    {edit : List Value → Except Cause (List Value)} {u : Unit}
    (h : (checkElement f v >>= fun _ => editList f edit) s = .ok u s')
    (hedit : ∀ l l', edit l = .ok l' → ∀ w ∈ l', w ∈ l ∨ w = v) : Change s s' := by
  obtain ⟨⟨t, d, ht, hd, hv⟩, h⟩ := checkedEdit_ok_iff.mp h
  refine editList_change h fun t' d' ht' hd' l l' hl w hw => ?_
  cases ht.symm.trans ht'
  cases hd.symm.trans hd'
  rcases hedit l l' hl w hw with hw | rfl
  · exact .inl hw
  · exact .inr hv

theorem Call.change {call : Call} {s s' : Store} {a : Answer} (h : call.run s = .ok a s') :
    Change s s' := by
  cases call <;> simp only [run, map_ok_iff] at h <;> obtain ⟨b, h, rfl⟩ := h
  case addTable name keyDef =>
    obtain ⟨hname, hfree, rfl, rfl⟩ := addTable_ok_iff.mp h
    exact .addTable name keyDef hname hfree
  case eraseTable table =>
    obtain ⟨ho, rfl⟩ := eraseTable_ok_iff.mp h
    exact .eraseTable ho
  case addColumn table d =>
    obtain ⟨hv, ht, t, hf, hname, hfree, rfl, rfl⟩ := addColumn_ok_iff.mp h
    exact .addColumn hf hv hname hfree ht
  case eraseColumn table column =>
    obtain ⟨t, d, hf, hd, hk, rfl⟩ := eraseColumn_ok_iff.mp h
    exact .eraseColumn hf hd hk
  case createObject table key =>
    obtain ⟨t, hf, hk, hfree, rfl, rfl⟩ := createObject_ok_iff.mp h
    exact .createObject hf hk hfree
  case eraseObject table object =>
    obtain ⟨t, hf, ho, rfl⟩ := eraseObject_ok_iff.mp h
    exact .eraseObject hf ho
  case setScalar f v =>
    obtain ⟨t, d, o, c, hat, hl, hk, hv, rfl⟩ := setScalar_ok_iff.mp h
    exact .setScalar hat hl hk (.inl hv)
  case addInt f delta =>
    obtain ⟨t, d, o, n, hat, hl, hk, rfl, rfl⟩ := addInt_ok_iff.mp h
    exact .setScalar hat hl hk (.inr ⟨n, _, rfl, rfl⟩)
  case listInsert f i v =>
    exact checkElement_editList_change h fun l l' hl w hw => Sequence.mem_of_insert hl hw
  case listSet f i v =>
    exact checkElement_editList_change h fun l l' hl w hw => Sequence.mem_of_set hl hw
  case listErase f i =>
    exact editList_change h fun _ _ _ _ l l' hl w hw => .inl (Sequence.mem_of_erase hl hw)
  case listMove f source target =>
    exact editList_change h fun _ _ _ _ l l' hl w hw => .inl (Sequence.mem_of_move hl hw)
  case listSwap f i j =>
    exact editList_change h fun _ _ _ _ l l' hl w hw => .inl (Sequence.mem_of_swap hl hw)
  case listClear f =>
    exact editList_change h fun _ _ _ _ l l' hl w hw => by cases hl; simp at hw

end Store
end ChangesetReplay
