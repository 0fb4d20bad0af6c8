import ChangesetReplay.Proofs.CellIndependence
import ChangesetReplay.Proofs.ListEdits
import ChangesetReplay.Proofs.ObjectReferences

/-! # Truthful effects

An effect is put together partly before the store is changed and partly afterwards, out of names
that were looked up on the way. What it says is compared here with what the store answers before
and after the step: the two agree for every instruction that succeeds. -/

namespace ChangesetReplay

structure Store.Leads (s : Store) (table field : String) (f : FieldRef) : Prop where
  table : s.findTable table = some f.table
  column : ∃ column, s.findColumn f.table field = .ok (some column) ∧ column.key = f.column

/-- The label is made of the names of the selected table and column, and of the selected object; the
list that is selected is the field `f`. -/
def Selection.Labels (sel : Selection) (s : Store) (label : String) (f : FieldRef) : Prop :=
  ∃ l name column, sel.container = .ok l ∧ s.tableName l.table = .ok name ∧
    s.column l.table l.column = .ok column ∧
    label = Effect.place name l.object column.definition.name ∧ f = l.fieldRef

/-- What an effect says of a step from `p`, under the selection `sel`, to `p'` and `sel'`. -/
inductive Effect.Tells (sel : Selection) (p : Progress) (sel' : Selection) (p' : Progress) :
    Effect → Prop where
  | tableAdded {name : String} {k : TableKey} (before : p.store.findTable name = none)
      (after : p'.store.findTable name = some k) : Tells sel p sel' p' (.tableAdded name)
  | tableErased {name : String} {k : TableKey} (before : p.store.findTable name = some k)
      (after : p'.store.findTable name = none) : Tells sel p sel' p' (.tableErased name)
  | columnAdded {table field type : String} {k : TableKey} {column : Column}
      (place : p.store.findTable table = some k) (stays : p'.store.findTable table = some k)
      (before : p.store.findColumn k field = .ok none)
      (after : p'.store.findColumn k field = .ok (some column))
      (typed : column.definition.text = type) :
      Tells sel p sel' p' (.columnAdded table field type)
  | columnErased {table field : String} {k : TableKey} {column : Column}
      (place : p.store.findTable table = some k) (stays : p'.store.findTable table = some k)
      (before : p.store.findColumn k field = .ok (some column))
      (after : p'.store.findColumn k field = .ok none) :
      Tells sel p sel' p' (.columnErased table field)
  | tableSelected {name : String} {k : TableKey} (place : p'.store.findTable name = some k)
      (selected : sel' = .table k) : Tells sel p sel' p' (.tableSelected name)
  | fieldSelected {table field : String} {f : FieldRef} (place : p'.store.Leads table field f)
      (selected : sel' = .field f.table f.object f.column) :
      Tells sel p sel' p' (.fieldSelected table f.object field)
  | linkListSelected {table field target : String} {f : FieldRef} {k : TableKey}
      (place : p'.store.Leads table field f) (linked : p'.store.findTable target = some k)
      (selected : sel' = .linkList f.table f.object f.column k) :
      Tells sel p sel' p' (.linkListSelected table f.object field target)
  /-- The number of the effect counts the objects created before, modulo `2 ^ 32`: as long as there
  are fewer, it refers to the object. -/
  | objectCreated {table : String} {k : TableKey} {x : ObjectKey} {index : UInt32}
      (place : p.store.findTable table = some k) (stays : p'.store.findTable table = some k)
      (before : ¬p.store.Holds ⟨k, x⟩) (after : p'.store.Holds ⟨k, x⟩)
      (listed : p'.created = p.created ++ [⟨k, x⟩])
      (numbered : index = UInt32.ofNat p.created.length)
      (resolved : p.created.length < UInt32.size → ∀ c : Changeset,
        c.object p'.store p'.created k (.created index) = .ok x) :
      Tells sel p sel' p' (.objectCreated table x index)
  | objectErased {table : String} {k : TableKey} {x : ObjectKey}
      (place : p.store.findTable table = some k) (stays : p'.store.findTable table = some k)
      (before : p.store.Holds ⟨k, x⟩) (after : ¬p'.store.Holds ⟨k, x⟩) :
      Tells sel p sel' p' (.objectErased table x)
  | fieldSet {table field : String} {f : FieldRef} {v : Value}
      (place : p'.store.Leads table field f) (after : p'.store.scalar f = .ok v) :
      Tells sel p sel' p' (.fieldSet table f.object field v)
  | integerAdded {table field : String} {f : FieldRef} {n delta sum : Int64}
      (place : p'.store.Leads table field f) (before : p.store.scalar f = .ok (.int n))
      (after : p'.store.scalar f = .ok (.int sum))
      (added : sum.toInt = (n.toInt + delta.toInt).bmod UInt64.size) :
      Tells sel p sel' p' (.integerAdded table f.object field delta sum)
  | listInserted {label : String} {f : FieldRef} {i : Nat} {v : Value}
      (place : sel.Labels p.store label f) (after : p'.store.listGet f i = .ok v) :
      Tells sel p sel' p' (.listInserted label i v)
  | listSet {label : String} {f : FieldRef} {i : Nat} {v : Value}
      (place : sel.Labels p.store label f) (after : p'.store.listGet f i = .ok v) :
      Tells sel p sel' p' (.listSet label i v)
  | listErased {label : String} {f : FieldRef} {i length : Nat}
      (place : sel.Labels p.store label f) (before : p.store.listLength f = .ok length)
      (valid : i < length) : Tells sel p sel' p' (.listErased label i)
  | listMoved {label : String} {f : FieldRef} {i j length : Nat}
      (place : sel.Labels p.store label f) (before : p.store.listLength f = .ok length)
      (valid : i < length ∧ j < length) : Tells sel p sel' p' (.listMoved label i j)
  | listSwapped {label : String} {f : FieldRef} {i j length : Nat}
      (place : sel.Labels p.store label f) (before : p.store.listLength f = .ok length)
      (valid : i < length ∧ j < length) : Tells sel p sel' p' (.listSwapped label i j)
  | listCleared {label : String} {f : FieldRef} {length : Nat}
      (place : sel.Labels p.store label f) (before : p.store.listLength f = .ok length)
      (after : p'.store.listLength f = .ok 0) : Tells sel p sel' p' (.listCleared label length)

namespace Sequence
variable {α : Type} {a : α} {i j : Nat} {l l' : List α}

theorem getElem?_of_insert (h : insert i a l = .ok l') : l'[i]? = some a := by
  rcases Nat.lt_or_ge l.length i with hi | hi
  · cases (insert_of_lt hi).symm.trans h
  · cases (insert_of_le hi).symm.trans h
    simp [List.length_take, hi]

theorem getElem?_of_set (h : set i a l = .ok l') : l'[i]? = some a := by
  rcases Nat.lt_or_ge i l.length with hi | hi
  · rw [set, if_pos hi] at h
    cases h
    exact List.getElem?_set_self hi
  · cases (set_of_le hi).symm.trans h

theorem lt_of_erase (h : erase i l = .ok l') : i < l.length := by
  by_contra hi
  cases (erase_of_le (Nat.le_of_not_lt hi)).symm.trans h

theorem lt_of_move (h : move i j l = .ok l') : i < l.length ∧ j < l.length := by
  rcases Nat.lt_or_ge i l.length with hi | hi
  · rcases Nat.lt_or_ge j l.length with hj | hj
    · exact ⟨hi, hj⟩
    · cases (move_of_lt_of_le hi hj).symm.trans h
  · cases (move_of_le hi).symm.trans h

theorem lt_of_swap (h : swap i j l = .ok l') : i < l.length ∧ j < l.length := by
  rcases Nat.lt_or_ge i l.length with hi | hi
  · rcases Nat.lt_or_ge j l.length with hj | hj
    · exact ⟨hi, hj⟩
    · cases (swap_of_lt_of_le hi hj).symm.trans h
  · cases (swap_of_le hi).symm.trans h

end Sequence

namespace Store
variable {s s' : Store} {f : FieldRef} {k : TableKey} {name : String} {u : Unit}

/-- What a list field held before an edit, and what it holds afterwards. -/
theorem editList_items {edit : List Value → Except Cause (List Value)}
    (h : editList f edit s = .ok u s') :
    ∃ l l', s.items f = .ok l ∧ edit l = .ok l' ∧ s'.items f = .ok l' := by
  obtain ⟨l, l', hl, hedit, rfl⟩ := editList_ok_iff.mp h
  obtain ⟨t, d, o, hat⟩ := items_ok_iff.mp hl
  exact ⟨l, l', hl, hedit, items_ok_iff.mpr ⟨_, _, _, hat.putCell _⟩⟩

theorem checkedEdit_items {v : Value} {edit : List Value → Except Cause (List Value)}
    (h : (checkElement f v >>= fun _ => editList f edit) s = .ok u s') :
    ∃ l l', s.items f = .ok l ∧ edit l = .ok l' ∧ s'.items f = .ok l' :=
  editList_items (checkedEdit_ok_iff.mp h).2

theorem listGet_of_items {l : List Value} {i : Nat} {v : Value} (hl : s.items f = .ok l)
    (hv : l[i]? = some v) : s.listGet f i = .ok v := by
  rw [listGet, hl, Reading.ok_bind]
  exact Sequence.at?_ok_iff.mpr hv

theorem listLength_of_items {l : List Value} (hl : s.items f = .ok l) :
    s.listLength f = .ok l.length := by
  rw [listLength, hl, Reading.ok_bind]
  rfl

theorem Named.findTable_of_tableName (hs : s.Named) (h : s.tableName k = .ok name) :
    s.findTable name = some k :=
  hs.findTable_eq_some_iff.mpr (tableName_ok_iff.mp h)

/-- An action that keeps the names of tables leaves its table to be found under its name. -/
theorem KeepsNames.findTable {α : Type} {act : Action α} {a : α} (hk : KeepsNames k act)
    (h : act s = .ok a s') (hs : s.Named) (hs' : s'.Named) (hname : s.tableName k = .ok name) :
    s.findTable name = some k ∧ s'.findTable name = some k :=
  ⟨hs.findTable_of_tableName hname,
    hs'.findTable_of_tableName ((hk.tableName_eq h).trans hname)⟩

theorem eraseTable_findTable (h : eraseTable k s = .ok u s') (hs : s.Named)
    (hname : s.tableName k = .ok name) : s'.findTable name = none := by
  obtain ⟨t, ht, rfl⟩ := tableName_ok_iff.mp hname
  obtain ⟨-, rfl⟩ := eraseTable_ok_iff.mp h
  refine findTable_eq_none_iff.mpr fun j v hv heq => ?_
  obtain ⟨hne, hv⟩ := FiniteMap.erase_eq_some_iff.mp hv
  exact hne (hs.name_unique j k v t hv ht heq).symm

theorem addColumn_findColumn {d : ColumnDef} {c : ColumnKey} (h : addColumn k d s = .ok c s')
    (hs' : s'.Coherent) :
    s.findColumn k d.name = .ok none ∧ s'.findColumn k d.name = .ok (some ⟨c, d⟩) := by
  obtain ⟨-, -, t, ht, hfresh, -, rfl, rfl⟩ := addColumn_ok_iff.mp h
  refine ⟨(table_bind_of_tables ht).trans (congrArg Except.ok hfresh), ?_⟩
  exact hs'.findColumn_eq_some_iff.mpr
    ⟨_, tables_putTable_self, List.mem_append_right _ (List.mem_singleton.mpr rfl), rfl⟩

theorem eraseColumn_findColumn {column : Column} (h : eraseColumn k column.key s = .ok u s')
    (hs : s.Coherent) (hfound : s.findColumn k name = .ok (some column)) :
    s'.findColumn k name = .ok none := by
  obtain ⟨t, _, ht, -, -, rfl⟩ := eraseColumn_ok_iff.mp h
  obtain ⟨t', ht', hmem, rfl⟩ := hs.findColumn_eq_some_iff.mp hfound
  cases ht.symm.trans ht'
  have hnone : (t.dropColumn column.key).column? column.definition.name = none := by
    refine Table.column?_eq_none_iff.mpr fun a ha hname => ?_
    obtain ⟨ha, hkey⟩ := List.mem_filter.mp ha
    cases List.inj_on_of_nodup_map (hs.table k t ht).names_nodup ha hmem hname
    simp at hkey
  exact (table_bind_of_tables tables_putTable_self).trans (congrArg Except.ok hnone)

theorem createObject_holds {key : Option PrimaryKey} {x : ObjectKey}
    (h : createObject k key s = .ok x s') : ¬s.Holds ⟨k, x⟩ ∧ s'.Holds ⟨k, x⟩ := by
  obtain ⟨t, ht, -, hfree, rfl, rfl⟩ := createObject_ok_iff.mp h
  constructor
  · rintro ⟨t', ht', hmem⟩
    cases ht.symm.trans ht'
    exact hfree hmem
  · exact ⟨_, tables_putTable_self,
      FiniteMap.mem_iff_exists.mpr ⟨_, Table.objects_pushObject.mpr (.inl ⟨rfl, rfl⟩)⟩⟩

theorem eraseObject_holds {x : ObjectKey} (h : eraseObject k x s = .ok u s') :
    s.Holds ⟨k, x⟩ ∧ ¬s'.Holds ⟨k, x⟩ := by
  obtain ⟨t, ht, hmem, -⟩ := eraseObject_ok_iff.mp h
  have hrun : (Call.eraseObject k x).run s = .ok .done s' := ActionLaws.map_ok_iff.mpr ⟨u, h, rfl⟩
  exact ⟨⟨t, ht, hmem⟩, (Call.keeps hrun).gone _ ⟨rfl, rfl⟩⟩

theorem setScalar_scalar {v : Value} (h : setScalar f v s = .ok u s') : s'.scalar f = .ok v := by
  obtain ⟨t, d, o, c, hat, -, -, -, rfl⟩ := setScalar_ok_iff.mp h
  exact scalar_ok_iff.mpr ⟨_, _, _, hat.putCell _⟩

/-- The sum is taken modulo `2 ^ 64`, into the signed range. -/
theorem addInt_scalar {delta sum : Int64} (h : addInt f delta s = .ok sum s') :
    ∃ n, s.scalar f = .ok (.int n) ∧ s'.scalar f = .ok (.int sum) ∧
      sum.toInt = (n.toInt + delta.toInt).bmod UInt64.size := by
  obtain ⟨t, d, o, n, hat, -, -, rfl, rfl⟩ := addInt_ok_iff.mp h
  exact ⟨n, scalar_ok_iff.mpr ⟨_, _, _, hat⟩, scalar_ok_iff.mpr ⟨_, _, _, hat.putCell _⟩,
    Int64.toInt_add n delta⟩

end Store

namespace Step
variable {c : Changeset} {sel sel' : Selection} {p p' : Progress} {i : Instruction} {e : Effect}
variable {f : FieldRef} {t : Table} {column : Column} {ref : ObjectRef} {field : NameId}

theorem Addresses.leads (h : Addresses c sel p ref field f t column) (hs : p.store.Coherent) :
    p.store.Leads t.name column.definition.name f where
  table := hs.named.findTable_of_tableName (Store.tableName_of_tables h.table)
  column := ⟨column, hs.findColumn_eq_some_iff.mpr ⟨t, h.table, h.member, rfl⟩, h.key⟩

theorem Addresses.leads_putCell {cell : Cell} (h : Addresses c sel p ref field f t column)
    (hs : p.store.Coherent) :
    (p.store.putCell f cell).Leads t.name column.definition.name f := by
  obtain ⟨htable, hcolumn⟩ := h.leads hs
  exact ⟨hs.named.findTable_putCell.trans htable, by simpa only [Store.findColumn_putCell]⟩

theorem leads_of_column {k : TableKey} {x : ObjectKey} {name : String} (hs : p.store.Coherent)
    (hcolumn : c.column p.store k field = .ok column) (hname : p.store.tableName k = .ok name) :
    p.store.Leads name column.definition.name ⟨k, x, column.key⟩ := by
  obtain ⟨_, -, hfound⟩ := Changeset.column_ok_iff.mp hcolumn
  obtain ⟨_, _, _, rfl⟩ := hs.findColumn_eq_some_iff.mp hfound
  exact ⟨hs.named.findTable_of_tableName hname, column, hfound, rfl⟩

theorem labels_of_selectedList {l : Container} {name : String}
    (hl : selectedList sel p = .ok (l, column)) (hname : p.store.tableName l.table = .ok name) :
    sel.Labels p.store (Effect.place name l.object column.definition.name) l.fieldRef := by
  obtain ⟨hcontainer, hcolumn⟩ := selectedList_ok_iff.mp hl
  exact ⟨l, name, column, hcontainer, hname, hcolumn, rfl, rfl⟩

/-- A successful step leaves a coherent store coherent. -/
theorem Outcome.coherent (h : Outcome c sel p i sel' e p') (hs : p.store.Coherent) :
    p'.store.Coherent := by
  rcases h.call with ⟨-, rfl⟩ | ⟨call, a, hcall⟩
  · exact hs
  · exact (Store.Call.change hcall.run).coherent hs

/-- What was created last is listed last, under a number that 32 bits hold while they can. -/
theorem object_created_last {k : TableKey} {x : ObjectKey} (hx : p'.store.Holds ⟨k, x⟩)
    (hcreated : p'.created = p.created ++ [⟨k, x⟩]) (hlength : p.created.length < UInt32.size) :
    c.object p'.store p'.created k (.created (UInt32.ofNat p.created.length)) = .ok x := by
  refine Changeset.object_created_ok_iff.mpr ⟨?_, hx⟩
  rw [hcreated, UInt32.toNat_ofNat_of_lt' hlength, List.getElem?_concat_length]

/-- A successful step tells the truth of a coherent store. -/
theorem Outcome.tells (h : Outcome c sel p i sel' e p') (hs : p.store.Coherent) :
    e.Tells sel p sel' p' := by
  have hs' := h.coherent hs
  cases h with
  | addTable named keyed done =>
    exact .tableAdded (Store.addTable_ok_iff.mp done).1
      (hs'.named.findTable_of_tableName (Store.addTable_tableName done))
  | eraseTable found label done =>
    exact .tableErased (hs.named.findTable_of_tableName label)
      (Store.eraseTable_findTable done hs.named label)
  | @addColumn id column type nullable isList target d t name k s defined found label done =>
    obtain ⟨hplace, hstays⟩ :=
      (Store.addColumn_keepsNames d).findTable done hs.named hs'.named label
    obtain ⟨hbefore, hafter⟩ := Store.addColumn_findColumn done hs'
    exact .columnAdded hplace hstays hbefore hafter rfl
  | @eraseColumn id field t column name s found member label done =>
    obtain ⟨hplace, hstays⟩ :=
      (Store.eraseColumn_keepsNames column.key).findTable done hs.named hs'.named label
    obtain ⟨field, -, hbefore⟩ := Changeset.column_ok_iff.mp member
    obtain ⟨_, _, _, rfl⟩ := hs.findColumn_eq_some_iff.mp hbefore
    exact .columnErased hplace hstays hbefore (Store.eraseColumn_findColumn done hs hbefore)
  | selectTable selected table label =>
    obtain ⟨k, -, rfl⟩ := Selection.selectTable_ok_iff.mp selected
    cases table
    exact .tableSelected (hs.named.findTable_of_tableName label) rfl
  | selectField selected list label member =>
    obtain ⟨k, column, x, -, hcolumn, -, -, -, rfl⟩ := Selection.selectField_ok selected
    cases list
    cases (Changeset.column_resolved hs hcolumn).symm.trans member
    exact .fieldSelected (f := ⟨k, x, column.key⟩) (leads_of_column hs hcolumn label) rfl
  | selectLinkList selected list linked label member targetLabel =>
    obtain ⟨k, column, x, target, j, -, hcolumn, -, -, -, -, rfl⟩ :=
      Selection.selectLinkList_ok selected
    cases list
    cases linked
    cases (Changeset.column_resolved hs hcolumn).symm.trans member
    exact .linkListSelected (f := ⟨k, x, column.key⟩) (leads_of_column hs hcolumn label)
      (hs.named.findTable_of_tableName targetLabel) rfl
  | @createObject key t key' o name s selected keyed label done =>
    obtain ⟨hplace, hstays⟩ :=
      (Store.createObject_keepsNames key').findTable done hs.named hs'.named label
    obtain ⟨hbefore, hafter⟩ := Store.createObject_holds done
    exact .objectCreated hplace hstays hbefore hafter rfl rfl fun hlength c =>
      object_created_last hafter rfl hlength
  | @eraseObject ref t o name s selected found label done =>
    obtain ⟨hplace, hstays⟩ :=
      (Store.eraseObject_keepsNames o).findTable done hs.named hs'.named label
    obtain ⟨hbefore, hafter⟩ := Store.eraseObject_holds done
    exact .objectErased hplace hstays hbefore hafter
  | @set ref field payload k x column target v name s place linked resolved label done =>
    obtain ⟨t, haddresses⟩ := (scalarField_ok_iff hs).mp place
    have hafter := Store.setScalar_scalar done
    obtain ⟨_, _, _, _, -, -, -, -, rfl⟩ := Store.setScalar_ok_iff.mp done
    cases (Store.tableName_of_tables haddresses.table).symm.trans label
    exact .fieldSet (f := ⟨k, x, column.key⟩) (haddresses.leads_putCell hs) hafter
  | @addInteger ref field delta k x column sum name s place type label done =>
    obtain ⟨t, haddresses⟩ := (scalarField_ok_iff hs).mp place
    obtain ⟨n, hbefore, hafter, hsum⟩ := Store.addInt_scalar done
    obtain ⟨_, _, _, _, -, -, -, -, rfl⟩ := Store.addInt_ok_iff.mp done
    cases (Store.tableName_of_tables haddresses.table).symm.trans label
    exact .integerAdded (haddresses.leads_putCell hs) hbefore hafter hsum
  | listInsert list resolved label done =>
    obtain ⟨l, l', -, hedit, hl'⟩ := Store.checkedEdit_items done
    exact .listInserted (labels_of_selectedList list label)
      (Store.listGet_of_items hl' (Sequence.getElem?_of_insert hedit))
  | listSet list resolved label done =>
    obtain ⟨l, l', -, hedit, hl'⟩ := Store.checkedEdit_items done
    exact .listSet (labels_of_selectedList list label)
      (Store.listGet_of_items hl' (Sequence.getElem?_of_set hedit))
  | listErase list label done =>
    obtain ⟨l, l', hl, hedit, -⟩ := Store.editList_items done
    exact .listErased (labels_of_selectedList list label) (Store.listLength_of_items hl)
      (Sequence.lt_of_erase hedit)
  | listMove list label done =>
    obtain ⟨l, l', hl, hedit, -⟩ := Store.editList_items done
    exact .listMoved (labels_of_selectedList list label) (Store.listLength_of_items hl)
      (Sequence.lt_of_move hedit)
  | listSwap list label done =>
    obtain ⟨l, l', hl, hedit, -⟩ := Store.editList_items done
    exact .listSwapped (labels_of_selectedList list label) (Store.listLength_of_items hl)
      (Sequence.lt_of_swap hedit)
  | listClear list length label done =>
    obtain ⟨l, l', hl, hedit, hl'⟩ := Store.editList_items done
    cases hedit
    exact .listCleared (labels_of_selectedList list label) length (Store.listLength_of_items hl')

end Step

namespace Replay

/-- At every point of a run, under any selection, the effect of an instruction that succeeds agrees
with what the store answers before and after it. -/
theorem effects_truthful (v : SchemaVersion) (turns : List Turn) (c : Changeset)
    (l : List Instruction) :
    let p := (follow c .none ⟨Turn.afterAll (.new v) turns, []⟩ l).2
    ∀ (sel : Selection) (i : Instruction) (sel' : Selection) (e : Effect) (p' : Progress),
      Step.dispatch c sel i p = .ok (sel', e) p' → e.Tells sel p sel' p' :=
  fun _ _ _ _ _ h => (Step.dispatch_outcome h).tells (follow_intact v turns c l).coherent

/-- Another person is entered after the member has left the team. -/
theorem effects_truthful_team :
    let p := (follow teamNames .none
      ⟨Turn.afterAll (.new 1) (Store.teamOperations.map .operate), []⟩ leaving).2
    ∃ p', Step.dispatch teamNames (.table ⟨1⟩) (.createObject (some (.int 8))) p =
        .ok (.table ⟨1⟩, .objectCreated "people" ⟨1⟩ 0) p' ∧
      (Effect.objectCreated "people" ⟨1⟩ 0).Tells (.table ⟨1⟩) p (.table ⟨1⟩) p' ∧
      teamNames.object p'.store p'.created ⟨1⟩ (.created 0) = .ok ⟨1⟩ := by
  have hnumber : ∀ {sel sel' : Selection} {p p' : Progress},
      (Effect.objectCreated "people" ⟨1⟩ 0).Tells sel p sel' p' →
      p.store.findTable "people" = some ⟨1⟩ → p.created.length < UInt32.size →
      teamNames.object p'.store p'.created ⟨1⟩ (.created 0) = .ok ⟨1⟩ := by
    intro sel sel' p p' htells hpeople hlength
    cases htells with
    | objectCreated place stays before after listed numbered resolved =>
      cases hpeople.symm.trans place
      exact resolved hlength teamNames
  intro p
  obtain ⟨p', hstep⟩ : ∃ p', Step.dispatch teamNames (.table ⟨1⟩) (.createObject (some (.int 8)))
      p = .ok (.table ⟨1⟩, .objectCreated "people" ⟨1⟩ 0) p' := ⟨_, rfl⟩
  have htells := effects_truthful 1 (Store.teamOperations.map .operate) teamNames leaving
    (.table ⟨1⟩) (.createObject (some (.int 8))) _ _ _ hstep
  exact ⟨p', hstep, htells, hnumber htells (by rfl) (by decide)⟩

end Replay
end ChangesetReplay
