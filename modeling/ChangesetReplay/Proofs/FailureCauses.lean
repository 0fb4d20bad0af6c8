import ChangesetReplay.Proofs.RaisedCauses
import ChangesetReplay.Proofs.RunPrefix

/-! # Causes of failed instructions

Names and references are resolved before a step acts, so what a call of the store is given is there.
Hence a changeset that fails on a reachable store fails for a reason that its instructions give: a
name, a reference, a value, a position, or what is selected. -/

namespace ChangesetReplay

open Reading ActionLaws
open Cause (Expected)

def InstructionKind.editsList : InstructionKind → Bool
  | listInsert | listSet | listErase | listMove | listSwap | listClear => true
  | _ => false

namespace Changeset
variable {list : Bool} {c : Changeset} {s : Store} {k : TableKey} {t : Table} {id : NameId}
variable {created : List Handle} {ref : ObjectRef}

theorem name_raises : Raises (Expected list) (c.name id) := by
  unfold name
  cases c.strings[id.index.toNat]? with
  | some name => exact .of_ok rfl
  | none => exact .error (.proper rfl rfl)

theorem string_raises {range : StringRange} : Raises (Expected list) (c.string range) := by
  unfold string
  cases Text.slice? c.buffer.toList range.offset.toNat range.size.toNat with
  | some cs => exact .of_ok rfl
  | none => exact .error (.proper rfl rfl)

theorem primaryKey_raises {key : KeyPayload} : Raises (Expected list) (c.primaryKey key) := by
  cases key with
  | string range => exact .bind string_raises fun _ _ => .of_ok rfl
  | _ => exact .of_ok rfl

theorem table_raises : Raises (Expected false) (c.table s id) := by
  refine .bind name_raises fun name _ => ?_
  cases s.findTable name with
  | some k => exact .of_ok rfl
  | none => exact .error (.outside rfl)

theorem table_exists (hs : s.Named) (h : c.table s id = .ok k) : ∃ t, s.tables[k]? = some t := by
  obtain ⟨name, -, hfound⟩ := table_ok_iff.mp h
  obtain ⟨t, ht, -⟩ := hs.findTable_eq_some_iff.mp hfound
  exact ⟨t, ht⟩

theorem column_raises (ht : s.tables[k]? = some t) : Raises (Expected false) (c.column s k id) := by
  refine .bind name_raises fun name _ =>
    .after (a := t.column? name) (Store.table_bind_of_tables ht) ?_
  cases t.column? name with
  | some column => exact .of_ok rfl
  | none => exact .error (.outside rfl)

theorem column_columnDef {column : Column} (hs : s.Coherent) (ht : s.tables[k]? = some t)
    (h : c.column s k id = .ok column) : t.columnDef column.key = .ok column.definition := by
  obtain ⟨t', ht', hdef⟩ := Store.column_ok_iff.mp (column_resolved hs h)
  cases ht.symm.trans ht'
  exact hdef

theorem createTable_raises (hs : s.Sound) (key : Option KeySpec) :
    RaisesAt (Expected false) (c.createTable id key) s := by
  simp only [createTable, ActionLaws.throw_bind]
  refine .read_bind name_raises fun name _ => .get_bind (.guard (fun _ => .outside rfl) fun _ => ?_)
  cases key with
  | none => exact Store.addTable_raises hs name none
  | some spec => exact .read_bind name_raises fun _ _ => Store.addTable_raises hs name _

theorem handle_raises {index : UInt32} : Raises (Expected list) (handle created index) := by
  unfold handle
  cases created[index.toNat]? with
  | some h => exact .of_ok rfl
  | none => exact .error (.proper rfl rfl)

theorem existing_raises (ht : s.tables[k]? = some t) {j : ObjectKey} {shown : String} :
    Raises (Expected list) (existing s k j shown) := by
  obtain ⟨b, hb⟩ := Store.containsObject_ok ht j
  refine .after hb (.ite (fun _ => .of_ok rfl) fun _ => ?_)
  exact .after (Store.tableName_of_tables ht) (.error (.proper rfl rfl))

/-- Only an object that was created in another table has a reference that is misaddressed. -/
theorem object_raises (ht : s.tables[k]? = some t) (hsame : list = true → ∀ index h,
    ref = .created index → handle created index = .ok h → h.table = k) :
    Raises (Expected list) (c.object s created k ref) := by
  have hname := Store.tableName_of_tables ht
  cases ref with
  | created index =>
    refine .bind handle_raises fun h hh => .ite (fun hne => ?_) fun _ => existing_raises ht
    refine .after hname (.error ⟨rfl, fun hlist => ?_⟩)
    exact absurd (hsame hlist index h rfl hh) hne
  | key object => exact existing_raises ht
  | primaryKey key =>
    refine .bind primaryKey_raises fun p _ => .after hname ?_
    refine .after (a := t.keyDef) (Store.table_bind_of_tables ht) ?_
    cases t.keyDef with
    | none => exact .error (.proper rfl rfl)
    | some d =>
      refine .bind KeyDef.check_raises fun _ _ => ?_
      refine .after (a := t.find? p) (Store.table_bind_of_tables ht) ?_
      cases t.find? p with
      | some object => exact .of_ok rfl
      | none => exact .error (.proper rfl rfl)

theorem linkedObject_raises (ht : s.tables[k]? = some t) {field : String} :
    Raises (Expected list) (c.linkedObject s created field k ref) := by
  have hname := Store.tableName_of_tables ht
  cases ref with
  | created index =>
    refine .bind handle_raises fun h hh => .ite (fun _ => ?_) fun heq => ?_
    · exact .after hname (.error (.proper rfl rfl))
    · -- the table was compared before, so it is not found to be another one
      refine object_raises ht fun _ index' h' href hh' => ?_
      cases href
      cases hh.symm.trans hh'
      simpa using heq
  | key object =>
    refine .after rfl (object_raises ht fun _ _ _ h => ?_)
    cases h
  | primaryKey key =>
    refine .after rfl (object_raises ht fun _ _ _ h => ?_)
    cases h

end Changeset

namespace Step
variable {α β : Type} {P : Cause → Prop} {list : Bool} {c : Changeset} {sel : Selection}
variable {p : Progress} {k : TableKey} {t : Table} {ref : ObjectRef} {id : NameId}

theorem look_raises {f : Progress → Except Cause α} {g : α → Step β} (h : Raises P (f p))
    (hg : ∀ a, f p = .ok a → RaisesAt P (g a) p) : RaisesAt P (look f >>= g) p := by
  have hlook : RaisesAt P (look f) p := by
    intro e p' he
    unfold look at he
    cases hf : f p with
    | ok a => simp [hf] at he
    | error e' =>
      simp only [hf, EStateM.Result.error.injEq] at he
      exact he.1 ▸ h e' hf
  refine .bind hlook fun a p' ha => ?_
  obtain ⟨hf, rfl⟩ := look_ok_iff.mp ha
  exact hg a hf

theorem onStore_raises {act : Store.Action α} (h : RaisesAt P act p.store) :
    RaisesAt P (onStore act) p := by
  intro e p' he
  unfold onStore at he
  cases hs : act p.store with
  | ok a s => simp [hs] at he
  | error e' s =>
    simp only [hs, EStateM.Result.error.injEq] at he
    exact he.1 ▸ h e' s hs

/-- After an action on the store, naming a table for the effect does not fail. -/
theorem onStore_bind_raises {act : Store.Action α} {g : α → Step β} {t : α → TableKey}
    (hact : RaisesAt P act p.store)
    (hnamed : ∀ {a s'}, act p.store = .ok a s' → ∃ name, s'.tableName (t a) = .ok name)
    (hg : ∀ a, Names (t a) (g a)) : RaisesAt P (onStore act >>= g) p := by
  refine .bind (onStore_raises hact) fun a p' ha => ?_
  obtain ⟨s', hs', rfl⟩ := onStore_ok_iff.mp ha
  obtain ⟨name, hname⟩ := hnamed hs'
  obtain ⟨b, p'', hb, -⟩ := hg a { p with store := s' } name hname
  exact .of_ok hb

theorem onStore_label_raises {act : Store.Action α} {g : α → Step β}
    (hact : RaisesAt P act p.store) (hk : Store.KeepsNames k act) (hg : ∀ a, Names k (g a)) :
    RaisesAt P (onStore act >>= g) p :=
  onStore_bind_raises (t := fun _ => k) hact (fun h => hk.named h) hg

theorem selectedTable_raises : Raises (Expected list) sel.selectedTable := by
  cases sel with
  | none => exact .error (.proper rfl rfl)
  | stale => exact .error (.proper rfl rfl)
  | _ => exact .of_ok rfl

theorem container_raises : Raises (Expected list) sel.container := by
  cases sel with
  | field t o c => exact .of_ok rfl
  | linkList t o c target => exact .of_ok rfl
  | _ => exact .error (.proper rfl rfl)

theorem newColumn_raises {type : ValueType} {nullable isList : Bool} {target : Option NameId} :
    Raises (Expected false) (newColumn c id type nullable isList target) := by
  have hvalid : ∀ d : ColumnDef, Raises (Expected false) (d.validate >>= fun _ => pure d) :=
    fun d => .bind ColumnDef.validate_raises fun _ _ => .of_ok rfl
  refine .bind Changeset.name_raises fun name _ => ?_
  cases target with
  | none => exact .after rfl (hvalid _)
  | some id => exact .bind Changeset.name_raises fun _ _ => hvalid _

theorem value_raises {d : ColumnDef} {target : Option TableKey}
    (htarget : ∀ k, target = some k → ∃ t, p.store.tables[k]? = some t) {payload : Payload} :
    Raises (Expected list) (value c p d target payload) := by
  cases payload with
  | string range => exact .bind Changeset.string_raises fun _ _ => .of_ok rfl
  | link ref =>
    cases target with
    | none => exact .error (.proper rfl rfl)
    | some k =>
      obtain ⟨t, ht⟩ := htarget k rfl
      exact .bind (Changeset.linkedObject_raises ht) fun _ _ => .of_ok rfl
  | _ => exact .of_ok rfl

theorem scalarField_raises (hsel : sel.Valid p.store) {field : NameId} :
    Raises (Expected false) (scalarField c sel p ref field) := by
  refine .bind selectedTable_raises fun k hk => ?_
  obtain ⟨t, ht⟩ := hsel.table k hk
  refine .bind (Changeset.column_raises ht) fun column _ => ?_
  refine .ite (fun _ => .error (.outside rfl)) fun _ => ?_
  exact .bind (Changeset.object_raises ht fun h => by cases h) fun _ _ => .of_ok rfl

/-- The object and the column that a scalar instruction addresses are there. -/
theorem scalarField_fieldAt {field : NameId} {k : TableKey} {j : ObjectKey} {column : Column}
    (hc : p.store.Coherent) (h : scalarField c sel p ref field = .ok (k, j, column)) :
    ∃ t, p.store.FieldAt ⟨k, j, column.key⟩ t column.definition := by
  obtain ⟨k', -, h⟩ := Reading.bind_ok_iff.mp h
  obtain ⟨column', hcolumn, h⟩ := Reading.bind_ok_iff.mp h
  by_cases hlist : column'.definition.isList
  · simp [hlist] at h
  · rw [if_neg hlist] at h
    obtain ⟨j', hobject, h⟩ := Reading.bind_ok_iff.mp h
    cases h
    obtain ⟨t, ht, hj⟩ := Changeset.object_holds hc hobject
    exact ⟨t, ht, Changeset.column_columnDef hc ht hcolumn, hj⟩

theorem linkTarget_raises {d : ColumnDef} : Raises (Expected false) (linkTarget p.store d) := by
  unfold linkTarget
  cases d.linkTarget with
  | none => exact .of_ok rfl
  | some target =>
    cases hfound : p.store.findTable target with
    | none =>
      simp only [hfound]
      exact .error (.outside rfl)
    | some k =>
      simp only [hfound]
      exact .of_ok rfl

theorem linkTarget_exists {d : ColumnDef} {target : Option TableKey} (hc : p.store.Coherent)
    (h : linkTarget p.store d = .ok target) (k : TableKey) (hk : target = some k) :
    ∃ t, p.store.tables[k]? = some t := by
  subst hk
  unfold linkTarget at h
  cases hlink : d.linkTarget with
  | none => simp [hlink] at h
  | some name =>
    cases hfound : p.store.findTable name with
    | none => simp [hlink, hfound] at h
    | some k' =>
      simp only [hlink, hfound, Except.ok.injEq, Option.some.injEq] at h
      obtain ⟨t, ht, -⟩ := hc.named.findTable_eq_some_iff.mp (h ▸ hfound)
      exact ⟨t, ht⟩

theorem selectedList_raises (hsel : sel.Valid p.store) :
    Raises (Expected list) (selectedList sel p) := by
  refine .bind container_raises fun l hl => ?_
  obtain ⟨d, hvalid⟩ := hsel.list l hl
  exact .after hvalid.column (.of_ok rfl)

theorem selectedList_valid {l : Container} {column : Column} (hsel : sel.Valid p.store)
    (h : selectedList sel p = .ok (l, column)) :
    l.Valid p.store column.definition ∧ ∃ t, p.store.FieldAt l.fieldRef t column.definition := by
  obtain ⟨hl, hcolumn⟩ := selectedList_ok_iff.mp h
  obtain ⟨d, hvalid⟩ := hsel.list l hl
  cases hvalid.column.symm.trans hcolumn
  obtain ⟨t, ht, hdef⟩ := Store.column_ok_iff.mp hvalid.column
  obtain ⟨t', ht', hj⟩ := Store.containsObject_true_iff.mp hvalid.object
  cases ht.symm.trans ht'
  exact ⟨hvalid, t, ht, hdef, hj⟩

theorem tableName_raises (ht : p.store.tables[k]? = some t) {g : String → Step β}
    (hg : RaisesAt P (g t.name) p) : RaisesAt P (tableName k >>= g) p := by
  have hname := Store.tableName_of_tables ht
  refine look_raises (.of_ok hname) fun name hname' => ?_
  cases hname.symm.trans hname'
  exact hg

theorem addTable_raises (hs : p.store.Sound) (key : Option KeySpec) :
    RaisesAt (Expected false) (addTable c sel id key) p :=
  onStore_bind_raises (t := fun k => k) (Changeset.createTable_raises hs key)
    (fun h => Changeset.createTable_named h) fun k => .bind (.tableName k) fun _ => .pure _

theorem eraseTable_raises (hc : p.store.Coherent) :
    RaisesAt (Expected false) (eraseTable c sel id) p := by
  refine look_raises Changeset.table_raises fun k hk => ?_
  obtain ⟨t, ht⟩ := Changeset.table_exists hc.named hk
  refine tableName_raises ht (.bind (onStore_raises (Store.eraseTable_raises ht)) fun _ _ _ => ?_)
  exact .of_ok rfl

theorem addColumn_raises (hs : p.store.Sound) (d : ColumnDef) :
    RaisesAt (Expected false) (addColumn c sel id d) p := by
  refine look_raises Changeset.table_raises fun k hk => ?_
  obtain ⟨t, ht⟩ := Changeset.table_exists hs.named hk
  exact onStore_label_raises (Store.addColumn_raises hs ht d) (Store.addColumn_keepsNames d)
    fun _ => .bind (.tableName k) fun _ => .pure _

theorem eraseColumn_raises (hc : p.store.Coherent) {column : NameId} :
    RaisesAt (Expected false) (eraseColumn c sel id column) p := by
  refine look_raises Changeset.table_raises fun k hk => ?_
  obtain ⟨t, ht⟩ := Changeset.table_exists hc.named hk
  refine look_raises (Changeset.column_raises ht) fun found hfound => ?_
  have hdef := Changeset.column_columnDef hc ht hfound
  exact onStore_label_raises (Store.eraseColumn_raises ht hdef)
    (Store.eraseColumn_keepsNames found.key) fun _ => .bind (.tableName k) fun _ => .pure _

theorem selectTable_raises (hc : p.store.Coherent) :
    RaisesAt (Expected false) (selectTable c id) p := by
  have hselect : Raises (Expected false) (Selection.selectTable c p.store id) := by
    refine .bind Changeset.name_raises fun name _ => ?_
    cases p.store.findTable name with
    | some k => exact .of_ok rfl
    | none => exact .error (.proper rfl rfl)
  refine look_raises hselect fun next hnext => look_raises selectedTable_raises fun k hk => ?_
  obtain ⟨t, ht⟩ := (Selection.selectTable_valid hc hnext).table k hk
  exact tableName_raises ht (.of_ok rfl)

theorem selectableColumn_raises (ht : p.store.tables[k]? = some t) :
    Raises (Expected list) (Selection.selectableColumn c p.store k id) := by
  refine .bind Changeset.name_raises fun name _ =>
    .after (a := t.column? name) (Store.table_bind_of_tables ht) ?_
  cases t.column? name with
  | some column => exact .of_ok rfl
  | none => exact .error (.proper rfl rfl)

theorem selectField_raises (hc : p.store.Coherent) (hsel : sel.Valid p.store) {field : NameId} :
    RaisesAt (Expected false) (selectField c sel ref field) p := by
  have hselect : Raises (Expected false) (sel.selectField c p.store p.created ref field) := by
    refine .bind selectedTable_raises fun k hk => ?_
    obtain ⟨t, ht⟩ := hsel.table k hk
    have hname := Store.tableName_of_tables ht
    refine .bind (selectableColumn_raises ht) fun column _ => ?_
    refine .ite (fun _ => .after hname (.error (.outside rfl))) fun _ => ?_
    exact .bind (Changeset.object_raises ht fun h => by cases h) fun _ _ => .of_ok rfl
  refine look_raises hselect fun next hnext => look_raises container_raises fun l hl => ?_
  have hvalid := Selection.selectField_valid hc hnext
  obtain ⟨t, ht⟩ := hvalid.table _ (Selection.selectedTable_of_container hl)
  obtain ⟨d, hlist⟩ := hvalid.list l hl
  exact tableName_raises ht (look_raises (.of_ok hlist.column) fun _ _ => .of_ok rfl)

theorem selectLinkList_raises (hc : p.store.Coherent) (hsel : sel.Valid p.store) {field : NameId} :
    RaisesAt (Expected false) (selectLinkList c sel ref field) p := by
  have hselect : Raises (Expected false) (sel.selectLinkList c p.store p.created ref field) := by
    refine .bind selectedTable_raises fun k hk => ?_
    obtain ⟨t, ht⟩ := hsel.table k hk
    have hname := Store.tableName_of_tables ht
    refine .bind (selectableColumn_raises ht) fun column _ => ?_
    cases column.definition.linkTarget with
    | none => exact .after hname (.error (.outside rfl))
    | some target =>
      cases column.definition.isLinkList with
      | false => exact .after hname (.error (.outside rfl))
      | true =>
        cases hfound : p.store.findTable target with
        | none =>
          simp only [hfound]
          exact .error (.outside rfl)
        | some target' =>
          simp only [hfound, pure_bind]
          exact .bind (Changeset.object_raises ht fun h => by cases h) fun _ _ => .of_ok rfl
  refine look_raises hselect fun next hnext => look_raises container_raises fun l hl => ?_
  have hvalid := Selection.selectLinkList_valid hc hnext
  obtain ⟨t, ht⟩ := hvalid.table _ (Selection.selectedTable_of_container hl)
  obtain ⟨d, hlist⟩ := hvalid.list l hl
  cases htarget : l.target with
  | none => exact .throw (.outside rfl)
  | some target =>
    obtain ⟨-, u, hu, -⟩ := hlist.linked target htarget
    refine tableName_raises ht (look_raises (.of_ok hlist.column) fun _ _ => ?_)
    exact tableName_raises hu (.of_ok rfl)

theorem createObject_raises (hs : p.store.Sound) (hsel : sel.Valid p.store)
    (key : Option KeyPayload) : RaisesAt (Expected false) (createObject c sel key) p := by
  refine look_raises selectedTable_raises fun k hk => ?_
  obtain ⟨t, ht⟩ := hsel.table k hk
  have hcreate : ∀ key', RaisesAt (Expected false) (do
      let object ← onStore (Store.createObject k key')
      let index ← register ⟨k, object⟩
      return (sel, .objectCreated (← tableName k) object index) : Step (Selection × Effect)) p :=
    fun key' => onStore_label_raises (Store.createObject_raises hs ht key')
      (Store.createObject_keepsNames key') fun object =>
        .bind (.register _) fun _ => .bind (.tableName k) fun _ => .pure _
  cases key with
  | none => exact hcreate none
  | some key => exact look_raises Changeset.primaryKey_raises fun key' _ => hcreate (some key')

theorem eraseObject_raises (hc : p.store.Coherent) (hsel : sel.Valid p.store) :
    RaisesAt (Expected false) (eraseObject c sel ref) p := by
  refine look_raises selectedTable_raises fun k hk => ?_
  obtain ⟨t, ht⟩ := hsel.table k hk
  refine look_raises (Changeset.object_raises ht fun h => by cases h) fun j hj => ?_
  obtain ⟨t', ht', hmem⟩ := Changeset.object_holds hc hj
  exact onStore_label_raises (Store.eraseObject_raises ht' hmem) (Store.eraseObject_keepsNames j)
    fun _ => .bind (.tableName k) fun _ => .pure _

theorem set_raises (hs : p.store.Sound) (hc : p.store.Coherent) (hsel : sel.Valid p.store)
    {field : NameId} {payload : Payload} :
    RaisesAt (Expected false) (set c sel ref field payload) p := by
  refine look_raises (scalarField_raises hsel) fun place hplace => ?_
  obtain ⟨k, j, column⟩ := place
  obtain ⟨t, hat⟩ := scalarField_fieldAt hc hplace
  refine look_raises linkTarget_raises fun target htarget => ?_
  refine look_raises (value_raises (linkTarget_exists hc htarget)) fun v _ => ?_
  exact onStore_label_raises (Store.setScalar_raises hs hat) (Store.setScalar_keepsNames _ v)
    fun _ => .bind (.tableName k) fun _ => .pure _

theorem addInteger_raises (hs : p.store.Sound) (hc : p.store.Coherent) (hsel : sel.Valid p.store)
    {field : NameId} (delta : Int64) :
    RaisesAt (Expected false) (addInteger c sel ref field delta) p := by
  simp only [addInteger, ActionLaws.throw_bind]
  refine look_raises (scalarField_raises hsel) fun place hplace => ?_
  obtain ⟨k, j, column⟩ := place
  obtain ⟨t, hat⟩ := scalarField_fieldAt hc hplace
  refine .guard (fun _ => .outside rfl) fun _ => ?_
  exact onStore_label_raises (Store.addInt_raises hs hat delta) (Store.addInt_keepsNames _ delta)
    fun _ => .bind (.tableName k) fun _ => .pure _

theorem editSelected_raises (hs : p.store.Sound) (hsel : sel.Valid p.store)
    {edit : List Value → Except Cause (List Value)} (effect : String → Effect)
    (hedit : ∀ l, Raises (Expected list) (edit l)) :
    RaisesAt (Expected list) (editSelected sel edit effect) p := by
  refine look_raises (selectedList_raises hsel) fun found hfound => ?_
  obtain ⟨l, column⟩ := found
  obtain ⟨hvalid, t, hat⟩ := selectedList_valid hsel hfound
  exact onStore_label_raises (Store.editList_raises hs hat hvalid.list hedit)
    (Store.editList_keepsNames _ _) fun _ => .bind (.listLabel l column) fun _ => .pure _

theorem writeSelected_raises (hs : p.store.Sound) (hsel : sel.Valid p.store)
    {payload : Payload} {edit : Value → List Value → Except Cause (List Value)}
    (effect : String → Value → Effect) (hedit : ∀ v l, Raises (Expected list) (edit v l)) :
    RaisesAt (Expected list) (writeSelected c sel payload edit effect) p := by
  refine look_raises (selectedList_raises hsel) fun found hfound => ?_
  obtain ⟨l, column⟩ := found
  obtain ⟨hvalid, t, hat⟩ := selectedList_valid hsel hfound
  have htarget : ∀ k, l.target = some k → ∃ u, p.store.tables[k]? = some u := by
    intro k hk
    obtain ⟨-, u, hu, -⟩ := hvalid.linked k hk
    exact ⟨u, hu⟩
  refine look_raises (value_raises htarget) fun v _ => ?_
  exact onStore_label_raises (Store.checkedEdit_raises hs hat hvalid.list (hedit v))
    (Store.checkedEdit_keepsNames _ v _) fun _ => .bind (.listLabel l column) fun _ => .pure _

theorem listClear_raises (hs : p.store.Sound) (hsel : sel.Valid p.store) :
    RaisesAt (Expected list) (listClear sel) p := by
  refine look_raises (selectedList_raises hsel) fun found hfound => ?_
  obtain ⟨l, column⟩ := found
  obtain ⟨hvalid, t, hat⟩ := selectedList_valid hsel hfound
  obtain ⟨items, hitems⟩ := hat.items_ok hs hvalid.list
  refine look_raises (.after hitems (.of_ok rfl)) fun length _ => ?_
  exact onStore_label_raises (Store.editList_raises hs hat hvalid.list fun _ => .of_ok rfl)
    (Store.editList_keepsNames _ _) fun _ => .bind (.listLabel l column) fun _ => .pure _

/-- A step fails only with what its instruction may fail with. -/
theorem dispatch_raises (hs : p.store.Sound) (hc : p.store.Coherent) (hsel : sel.Valid p.store)
    (i : Instruction) : RaisesAt (Expected i.kind.editsList) (dispatch c sel i) p := by
  cases i with
  | addTable id key => exact addTable_raises hs key
  | eraseTable id => exact eraseTable_raises hc
  | addColumn id column type nullable isList target =>
    exact look_raises newColumn_raises fun d _ => addColumn_raises hs d
  | eraseColumn id column => exact eraseColumn_raises hc
  | selectTable id => exact selectTable_raises hc
  | selectField ref field => exact selectField_raises hc hsel
  | selectLinkList ref field => exact selectLinkList_raises hc hsel
  | createObject key => exact createObject_raises hs hsel key
  | eraseObject ref => exact eraseObject_raises hc hsel
  | set ref field payload => exact set_raises hs hc hsel
  | addInteger ref field delta => exact addInteger_raises hs hc hsel delta
  | listInsert i payload =>
    rw [dispatch_listInsert]
    exact writeSelected_raises hs hsel _ fun _ _ => Sequence.insert_raises
  | listSet i payload =>
    rw [dispatch_listSet]
    exact writeSelected_raises hs hsel _ fun _ _ => Sequence.set_raises
  | listErase i =>
    rw [dispatch_listErase]
    exact editSelected_raises hs hsel _ fun _ => Sequence.erase_raises
  | listMove i j =>
    rw [dispatch_listMove]
    exact editSelected_raises hs hsel _ fun _ => Sequence.move_raises
  | listSwap i j =>
    rw [dispatch_listSwap]
    exact editSelected_raises hs hsel _ fun _ => Sequence.swap_raises
  | listClear => exact listClear_raises hs hsel

end Step

namespace Store
variable {s : Store}

/-- Where a changeset stopped. -/
theorem stoppedAt {limits : Limits} {c : Changeset} {f : Failure}
    (h : (s.apply limits c).error = some (.instruction f)) : s.StoppedAt limits c f := by
  cases hcheck : Replay.check limits c s with
  | error e =>
    simp only [apply, hcheck, Option.some.injEq] at h
    subst h
    cases Replay.failure?_of_check hcheck
  | ok u =>
    simp only [apply_of_check hcheck, Option.map_eq_some_iff, ApplyError.instruction.injEq] at h
    obtain ⟨_, hf, rfl⟩ := h
    exact stoppedAt_of_failure hcheck hf

end Store

theorem Replay.run_valid {c : Changeset} {n : Nat} {sel : Selection} {l : List Instruction}
    {p : Progress} (hs : p.store.Coherent) (hsel : sel.Valid p.store) :
    (run c n sel l p).selection.Valid (run c n sel l p).progress.store := by
  induction l generalizing n sel p with
  | nil => exact hsel
  | cons i rest ih =>
    cases hstep : Step.dispatch c sel i p with
    | error cause p' =>
      cases Step.dispatch_atomic c sel i p cause p' hstep
      simpa only [run, hstep] using hsel
    | ok r p' =>
      obtain ⟨sel', e⟩ := r
      obtain ⟨hs', hsel'⟩ := (Step.dispatch_outcome hstep).valid hs hsel
      simpa only [run, hstep] using ih hs' hsel'

/-- A changeset that fails on a reachable store does not fail for a reason that speaks of keys as
such, and where it edits a list, not for one that blames the kind or the place of that list. -/
theorem apply_failure_expected {v : SchemaVersion} {s : Store} (h : Store.Reachable v s)
    {limits : Limits} {c : Changeset}
    (hroom : ∀ m < c.instructions.length, (s.trail (c.upTo m)).progress.store.HasRoom)
    {f : Failure} (hf : (s.apply limits c).error = some (.instruction f)) :
    f.cause.isInternal = false ∧ (f.kind.editsList = true → f.cause.isMisaddressed = false) := by
  have hstopped := Store.stoppedAt hf
  have hbefore := s.trail_upTo c f.index
  have hreach : Store.Reachable v (s.trail (c.upTo f.index)).progress.store := by
    rw [hbefore]
    refine Store.Reaches.run (p := ⟨s, []⟩) h fun m hm => ?_
    rw [List.length_take, Nat.lt_min] at hm
    rw [List.take_take, Nat.min_eq_left (Nat.le_of_lt hm.1), ← s.trail_upTo c m]
    exact hroom m hm.2
  have hvalid : (s.trail (c.upTo f.index)).selection.Valid
      (s.trail (c.upTo f.index)).progress.store := by
    rw [hbefore]
    exact Replay.run_valid (p := ⟨s, []⟩) h.coherent Selection.none_valid
  have hcause := Step.dispatch_raises hreach.sound hreach.coherent hvalid _ _ _ hstopped.fails
  rw [hstopped.kind] at hcause
  exact ⟨hcause.notInternal, hcause.addressed⟩

def leaveSixthTeam : Changeset :=
  ⟨1, ["people", "former"], "", [.selectTable ⟨0⟩, .selectLinkList (.primaryKey (.int 7)) ⟨1⟩,
    .listErase 5]⟩

theorem apply_failure_expected_team :
    Store.Reachable 1 Store.teamStore ∧
      (Store.teamStore.apply .standard leaveSixthTeam).error =
        some (.instruction ⟨2, .listErase, .indexOutOfBounds 5 1⟩) ∧
      (Cause.indexOutOfBounds 5 1).isInternal = false ∧
      (Cause.indexOutOfBounds 5 1).isMisaddressed = false := by
  have hf : (Store.teamStore.apply .standard leaveSixthTeam).error =
      some (.instruction ⟨2, .listErase, .indexOutOfBounds 5 1⟩) := by rfl
  have hcause := apply_failure_expected Store.teamStore_reachable (by decide) hf
  exact ⟨Store.teamStore_reachable, hf, hcause.1, hcause.2 rfl⟩

end ChangesetReplay
