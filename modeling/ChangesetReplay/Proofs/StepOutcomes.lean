import ChangesetReplay.Proofs.StepLaws

/-! # Outcomes of steps

What a successful step comes to, one case for each instruction: what its names and references were
resolved to, the action taken on the store, the next selection and the effect. -/

namespace ChangesetReplay

namespace Changeset

def keyDef (c : Changeset) : Option KeySpec → Except Cause (Option KeyDef)
  | none => .ok none
  | some spec => do
    let column ← c.name spec.column
    return some ⟨column, spec.type, spec.nullable⟩

def newKey (c : Changeset) : Option KeyPayload → Except Cause (Option PrimaryKey)
  | none => .ok none
  | some key => do return some (← c.primaryKey key)

theorem createTable_ok_iff {c : Changeset} {id : NameId} {key : Option KeySpec} {s s' : Store}
    {t : TableKey} :
    c.createTable id key s = .ok t s' ↔ ∃ name keyDef, c.name id = .ok name ∧
      c.keyDef key = .ok keyDef ∧ Store.addTable name keyDef s = .ok t s' := by
  have hnew : ∀ {name keyDef}, Store.addTable name keyDef s = .ok t s' → s.findTable name = none :=
    fun h => (Store.addTable_ok_iff.mp h).1
  cases key with
  | none =>
    simp only [createTable, keyDef, pure_bind, ActionLaws.throw_bind, ActionLaws.read_bind_ok_iff,
      ActionLaws.get_bind, ActionLaws.guard_ok_iff, Bool.not_eq_true, Option.isSome_eq_false_iff,
      Option.isNone_iff_eq_none, Except.ok.injEq, exists_and_left, exists_eq_left']
    constructor
    · rintro ⟨name, hn, -, h⟩
      exact ⟨name, hn, h⟩
    · rintro ⟨name, hn, h⟩
      exact ⟨name, hn, hnew h, h⟩
  | some spec =>
    simp only [createTable, keyDef, pure_bind, ActionLaws.throw_bind,
      ActionLaws.read_bind_ok_iff, ActionLaws.get_bind, ActionLaws.guard_ok_iff, Bool.not_eq_true,
      Option.isSome_eq_false_iff, Option.isNone_iff_eq_none, Reading.bind_ok_iff,
      Reading.pure_ok_iff]
    constructor
    · rintro ⟨name, hn, -, column, hc, h⟩
      exact ⟨name, _, hn, ⟨column, hc, rfl⟩, h⟩
    · rintro ⟨name, -, hn, ⟨column, hc, rfl⟩, h⟩
      exact ⟨name, hn, hnew h, column, hc, h⟩

end Changeset

namespace Step

/-- What a successful step of an instruction comes to. -/
inductive Outcome (c : Changeset) (sel : Selection) (p : Progress) :
    Instruction → Selection → Effect → Progress → Prop where
  | addTable {id : NameId} {key : Option KeySpec} {name : String} {keyDef : Option KeyDef}
      {t : TableKey} {s : Store} (named : c.name id = .ok name) (keyed : c.keyDef key = .ok keyDef)
      (done : Store.addTable name keyDef p.store = .ok t s) :
      Outcome c sel p (.addTable id key) sel (.tableAdded name) { p with store := s }
  | eraseTable {id : NameId} {t : TableKey} {name : String} {s : Store}
      (found : c.table p.store id = .ok t) (label : p.store.tableName t = .ok name)
      (done : Store.eraseTable t p.store = .ok () s) :
      Outcome c sel p (.eraseTable id) (sel.afterTableErased t) (.tableErased name)
        { p with store := s }
  | addColumn {id column : NameId} {type : ValueType} {nullable isList : Bool}
      {target : Option NameId} {d : ColumnDef} {t : TableKey} {name : String} {k : ColumnKey}
      {s : Store} (defined : newColumn c column type nullable isList target = .ok d)
      (found : c.table p.store id = .ok t) (label : p.store.tableName t = .ok name)
      (done : Store.addColumn t d p.store = .ok k s) :
      Outcome c sel p (.addColumn id column type nullable isList target) sel
        (.columnAdded name d.name d.text) { p with store := s }
  | eraseColumn {id field : NameId} {t : TableKey} {column : Column} {name : String} {s : Store}
      (found : c.table p.store id = .ok t) (member : c.column p.store t field = .ok column)
      (label : p.store.tableName t = .ok name)
      (done : Store.eraseColumn t column.key p.store = .ok () s) :
      Outcome c sel p (.eraseColumn id field) (sel.afterColumnErased t column.key)
        (.columnErased name column.definition.name) { p with store := s }
  | selectTable {id : NameId} {next : Selection} {t : TableKey} {name : String}
      (selected : Selection.selectTable c p.store id = .ok next)
      (table : next.selectedTable = .ok t) (label : p.store.tableName t = .ok name) :
      Outcome c sel p (.selectTable id) next (.tableSelected name) p
  | selectField {ref : ObjectRef} {field : NameId} {next : Selection} {l : Container}
      {name : String} {column : Column}
      (selected : sel.selectField c p.store p.created ref field = .ok next)
      (list : next.container = .ok l) (label : p.store.tableName l.table = .ok name)
      (member : p.store.column l.table l.column = .ok column) :
      Outcome c sel p (.selectField ref field) next
        (.fieldSelected name l.object column.definition.name) p
  | selectLinkList {ref : ObjectRef} {field : NameId} {next : Selection} {l : Container}
      {target : TableKey} {name targetName : String} {column : Column}
      (selected : sel.selectLinkList c p.store p.created ref field = .ok next)
      (list : next.container = .ok l) (linked : l.target = some target)
      (label : p.store.tableName l.table = .ok name)
      (member : p.store.column l.table l.column = .ok column)
      (targetLabel : p.store.tableName target = .ok targetName) :
      Outcome c sel p (.selectLinkList ref field) next
        (.linkListSelected name l.object column.definition.name targetName) p
  | createObject {key : Option KeyPayload} {t : TableKey} {key' : Option PrimaryKey}
      {o : ObjectKey} {name : String} {s : Store} (selected : sel.selectedTable = .ok t)
      (keyed : c.newKey key = .ok key') (label : p.store.tableName t = .ok name)
      (done : Store.createObject t key' p.store = .ok o s) :
      Outcome c sel p (.createObject key) sel
        (.objectCreated name o (UInt32.ofNat p.created.length)) ⟨s, p.created ++ [⟨t, o⟩]⟩
  | eraseObject {ref : ObjectRef} {t : TableKey} {o : ObjectKey} {name : String} {s : Store}
      (selected : sel.selectedTable = .ok t) (found : c.object p.store p.created t ref = .ok o)
      (label : p.store.tableName t = .ok name) (done : Store.eraseObject t o p.store = .ok () s) :
      Outcome c sel p (.eraseObject ref) (sel.afterObjectErased t o) (.objectErased name o)
        { p with store := s }
  | set {ref : ObjectRef} {field : NameId} {payload : Payload} {t : TableKey} {o : ObjectKey}
      {column : Column} {target : Option TableKey} {v : Value} {name : String} {s : Store}
      (place : scalarField c sel p ref field = .ok (t, o, column))
      (linked : linkTarget p.store column.definition = .ok target)
      (resolved : value c p column.definition target payload = .ok v)
      (label : p.store.tableName t = .ok name)
      (done : Store.setScalar ⟨t, o, column.key⟩ v p.store = .ok () s) :
      Outcome c sel p (.set ref field payload) sel (.fieldSet name o column.definition.name v)
        { p with store := s }
  | addInteger {ref : ObjectRef} {field : NameId} {delta : Int64} {t : TableKey} {o : ObjectKey}
      {column : Column} {sum : Int64} {name : String} {s : Store}
      (place : scalarField c sel p ref field = .ok (t, o, column))
      (type : column.definition.type = .int) (label : p.store.tableName t = .ok name)
      (done : Store.addInt ⟨t, o, column.key⟩ delta p.store = .ok sum s) :
      Outcome c sel p (.addInteger ref field delta) sel
        (.integerAdded name o column.definition.name delta sum) { p with store := s }
  | listInsert {i : UInt32} {payload : Payload} {l : Container} {column : Column} {v : Value}
      {name : String} {s : Store} (list : selectedList sel p = .ok (l, column))
      (resolved : value c p column.definition l.target payload = .ok v)
      (label : p.store.tableName l.table = .ok name)
      (done : Store.listInsert l.fieldRef i.toNat v p.store = .ok () s) :
      Outcome c sel p (.listInsert i payload) sel
        (.listInserted (Effect.place name l.object column.definition.name) i.toNat v)
        { p with store := s }
  | listSet {i : UInt32} {payload : Payload} {l : Container} {column : Column} {v : Value}
      {name : String} {s : Store} (list : selectedList sel p = .ok (l, column))
      (resolved : value c p column.definition l.target payload = .ok v)
      (label : p.store.tableName l.table = .ok name)
      (done : Store.listSet l.fieldRef i.toNat v p.store = .ok () s) :
      Outcome c sel p (.listSet i payload) sel
        (.listSet (Effect.place name l.object column.definition.name) i.toNat v)
        { p with store := s }
  | listErase {i : UInt32} {l : Container} {column : Column} {name : String} {s : Store}
      (list : selectedList sel p = .ok (l, column)) (label : p.store.tableName l.table = .ok name)
      (done : Store.listErase l.fieldRef i.toNat p.store = .ok () s) :
      Outcome c sel p (.listErase i) sel
        (.listErased (Effect.place name l.object column.definition.name) i.toNat)
        { p with store := s }
  | listMove {i j : UInt32} {l : Container} {column : Column} {name : String} {s : Store}
      (list : selectedList sel p = .ok (l, column)) (label : p.store.tableName l.table = .ok name)
      (done : Store.listMove l.fieldRef i.toNat j.toNat p.store = .ok () s) :
      Outcome c sel p (.listMove i j) sel
        (.listMoved (Effect.place name l.object column.definition.name) i.toNat j.toNat)
        { p with store := s }
  | listSwap {i j : UInt32} {l : Container} {column : Column} {name : String} {s : Store}
      (list : selectedList sel p = .ok (l, column)) (label : p.store.tableName l.table = .ok name)
      (done : Store.listSwap l.fieldRef i.toNat j.toNat p.store = .ok () s) :
      Outcome c sel p (.listSwap i j) sel
        (.listSwapped (Effect.place name l.object column.definition.name) i.toNat j.toNat)
        { p with store := s }
  | listClear {l : Container} {column : Column} {n : Nat} {name : String} {s : Store}
      (list : selectedList sel p = .ok (l, column)) (length : p.store.listLength l.fieldRef = .ok n)
      (label : p.store.tableName l.table = .ok name)
      (done : Store.listClear l.fieldRef p.store = .ok () s) :
      Outcome c sel p .listClear sel
        (.listCleared (Effect.place name l.object column.definition.name) n)
        { p with store := s }

variable {c : Changeset} {sel sel' : Selection} {p p' : Progress} {e : Effect}

theorem addTable_outcome {id : NameId} {key : Option KeySpec}
    (h : addTable c sel id key p = .ok (sel', e) p') :
    Outcome c sel p (.addTable id key) sel' e p' := by
  simp only [addTable, tableName, Changeset.createTable_ok_iff, bind_pure_comp, onStore_bind_ok_iff,
    ActionLaws.map_ok_iff, look_ok_iff, Prod.mk.injEq] at h
  obtain ⟨t, s, ⟨name, keyDef, hn, hk, h⟩, name', ⟨hname, rfl⟩, rfl, rfl⟩ := h
  cases (Store.addTable_tableName h).symm.trans hname
  exact .addTable hn hk h

theorem eraseTable_outcome {id : NameId}
    (h : eraseTable c sel id p = .ok (sel', e) p') :
    Outcome c sel p (.eraseTable id) sel' e p' := by
  simp only [eraseTable, tableName, bind_pure_comp, look_bind_ok_iff, onStore_ok_iff,
    ActionLaws.map_ok_iff, Prod.mk.injEq] at h
  obtain ⟨t, ht, name, hname, ⟨⟩, ⟨s, h, rfl⟩, rfl, rfl⟩ := h
  exact .eraseTable ht hname h

theorem addColumn_outcome {id column : NameId} {type : ValueType} {nullable isList : Bool}
    {target : Option NameId}
    (h : dispatch c sel (.addColumn id column type nullable isList target) p = .ok (sel', e) p') :
    Outcome c sel p (.addColumn id column type nullable isList target) sel' e p' := by
  simp only [dispatch, addColumn, tableName, bind_pure_comp, look_bind_ok_iff, onStore_bind_ok_iff,
    ActionLaws.map_ok_iff, look_ok_iff, Prod.mk.injEq] at h
  obtain ⟨d, hd, t, ht, k, s, h, name, ⟨hname, rfl⟩, rfl, rfl⟩ := h
  rw [(Store.addColumn_keepsNames _).tableName_eq h] at hname
  exact .addColumn hd ht hname h

theorem eraseColumn_outcome {id column : NameId}
    (h : eraseColumn c sel id column p = .ok (sel', e) p') :
    Outcome c sel p (.eraseColumn id column) sel' e p' := by
  simp only [eraseColumn, tableName, bind_pure_comp, look_bind_ok_iff, onStore_bind_ok_iff,
    ActionLaws.map_ok_iff, look_ok_iff, Prod.mk.injEq] at h
  obtain ⟨t, ht, found, hf, ⟨⟩, s, h, name, ⟨hname, rfl⟩, rfl, rfl⟩ := h
  rw [(Store.eraseColumn_keepsNames _).tableName_eq h] at hname
  exact .eraseColumn ht hf hname h

theorem selectTable_outcome {id : NameId}
    (h : selectTable c id p = .ok (sel', e) p') :
    Outcome c sel p (.selectTable id) sel' e p' := by
  simp only [selectTable, tableName, bind_pure_comp, look_bind_ok_iff, ActionLaws.map_ok_iff,
    look_ok_iff, Prod.mk.injEq] at h
  obtain ⟨next, hnext, t, ht, name, ⟨hname, rfl⟩, rfl, rfl⟩ := h
  exact .selectTable hnext ht hname

theorem selectField_outcome {ref : ObjectRef} {field : NameId}
    (h : selectField c sel ref field p = .ok (sel', e) p') :
    Outcome c sel p (.selectField ref field) sel' e p' := by
  simp only [selectField, tableName, bind_pure_comp, look_bind_ok_iff, ActionLaws.map_ok_iff,
    look_ok_iff, Prod.mk.injEq] at h
  obtain ⟨next, hnext, l, hl, name, hname, column, ⟨hc, rfl⟩, rfl, rfl⟩ := h
  exact .selectField hnext hl hname hc

theorem selectLinkList_outcome {ref : ObjectRef} {field : NameId}
    (h : selectLinkList c sel ref field p = .ok (sel', e) p') :
    Outcome c sel p (.selectLinkList ref field) sel' e p' := by
  simp only [selectLinkList, look_bind_ok_iff] at h
  obtain ⟨next, hnext, l, hl, h⟩ := h
  cases htarget : l.target with
  | none => simp [htarget] at h
  | some target =>
    simp only [htarget, tableName, bind_pure_comp, look_bind_ok_iff, ActionLaws.map_ok_iff,
      look_ok_iff, Prod.mk.injEq] at h
    obtain ⟨name, hname, column, hc, targetName, ⟨ht, rfl⟩, rfl, rfl⟩ := h
    exact .selectLinkList hnext hl htarget hname hc ht

theorem createObject_outcome {key : Option KeyPayload}
    (h : createObject c sel key p = .ok (sel', e) p') :
    Outcome c sel p (.createObject key) sel' e p' := by
  have hkey : ∃ t key', sel.selectedTable = .ok t ∧ c.newKey key = .ok key' ∧
      (do let object ← onStore (Store.createObject t key')
          let index ← register ⟨t, object⟩
          return (sel, .objectCreated (← tableName t) object index) : Step _) p =
        .ok (sel', e) p' := by
    cases key with
    | none =>
      simp only [createObject, pure_bind, look_bind_ok_iff] at h
      obtain ⟨t, ht, h⟩ := h
      exact ⟨t, none, ht, rfl, h⟩
    | some key =>
      simp only [createObject, pure_bind, look_bind_ok_iff] at h
      obtain ⟨t, ht, key', hk, h⟩ := h
      exact ⟨t, some key', ht, by simp [Changeset.newKey, hk], h⟩
  obtain ⟨t, key', ht, hk, hrest⟩ := hkey
  simp only [register, tableName, bind_pure_comp, bind_map_left, onStore_bind_ok_iff,
    ActionLaws.modify_bind, ActionLaws.get_bind, List.length_append, List.length_cons,
    List.length_nil, Nat.zero_add, Nat.add_one_sub_one, bind_assoc, ActionLaws.map_ok_iff,
    look_ok_iff, Prod.mk.injEq] at hrest
  obtain ⟨o, s, hdone, name, ⟨hname, rfl⟩, rfl, rfl⟩ := hrest
  rw [(Store.createObject_keepsNames _).tableName_eq hdone] at hname
  exact .createObject ht hk hname hdone

theorem eraseObject_outcome {ref : ObjectRef}
    (h : eraseObject c sel ref p = .ok (sel', e) p') :
    Outcome c sel p (.eraseObject ref) sel' e p' := by
  simp only [eraseObject, tableName, bind_pure_comp, look_bind_ok_iff, onStore_bind_ok_iff,
    ActionLaws.map_ok_iff, look_ok_iff, Prod.mk.injEq] at h
  obtain ⟨t, ht, o, ho, ⟨⟩, s, h, name, ⟨hname, rfl⟩, rfl, rfl⟩ := h
  rw [(Store.eraseObject_keepsNames _).tableName_eq h] at hname
  exact .eraseObject ht ho hname h

theorem set_outcome {ref : ObjectRef} {field : NameId} {payload : Payload}
    (h : set c sel ref field payload p = .ok (sel', e) p') :
    Outcome c sel p (.set ref field payload) sel' e p' := by
  simp only [set, tableName, bind_pure_comp, look_bind_ok_iff, onStore_bind_ok_iff,
    ActionLaws.map_ok_iff, look_ok_iff, Prod.mk.injEq, Prod.exists] at h
  obtain ⟨t, o, column, hp, target, ht, v, hv, ⟨⟩, s, h, name, ⟨hname, rfl⟩, rfl, rfl⟩ := h
  rw [(Store.setScalar_keepsNames _ _).tableName_eq h] at hname
  exact .set hp ht hv hname h

theorem addInteger_outcome {ref : ObjectRef} {field : NameId} {delta : Int64}
    (h : addInteger c sel ref field delta p = .ok (sel', e) p') :
    Outcome c sel p (.addInteger ref field delta) sel' e p' := by
  simp only [addInteger, ne_eq, ite_not, ActionLaws.throw_bind, ActionLaws.guard_not_ok_iff,
    tableName, bind_pure_comp, look_bind_ok_iff, onStore_bind_ok_iff, ActionLaws.map_ok_iff,
    look_ok_iff, Prod.mk.injEq, Prod.exists] at h
  obtain ⟨t, o, column, hp, htype, sum, s, h, name, ⟨hname, rfl⟩, rfl, rfl⟩ := h
  rw [(Store.addInt_keepsNames _ _).tableName_eq h] at hname
  exact .addInteger hp htype hname h

theorem listInsert_outcome {i : UInt32} {payload : Payload}
    (h : dispatch c sel (.listInsert i payload) p = .ok (sel', e) p') :
    Outcome c sel p (.listInsert i payload) sel' e p' := by
  rw [dispatch_listInsert] at h
  obtain ⟨l, column, v, name, s, hl, hv, hname, hdone, rfl, rfl, rfl⟩ := writeSelected_ok h
  exact .listInsert hl hv hname hdone

theorem listSet_outcome {i : UInt32} {payload : Payload}
    (h : dispatch c sel (.listSet i payload) p = .ok (sel', e) p') :
    Outcome c sel p (.listSet i payload) sel' e p' := by
  rw [dispatch_listSet] at h
  obtain ⟨l, column, v, name, s, hl, hv, hname, hdone, rfl, rfl, rfl⟩ := writeSelected_ok h
  exact .listSet hl hv hname hdone

theorem listErase_outcome {i : UInt32}
    (h : dispatch c sel (.listErase i) p = .ok (sel', e) p') :
    Outcome c sel p (.listErase i) sel' e p' := by
  rw [dispatch_listErase] at h
  obtain ⟨l, column, name, s, hl, hname, hdone, rfl, rfl, rfl⟩ := editSelected_ok h
  exact .listErase hl hname hdone

theorem listMove_outcome {i j : UInt32}
    (h : dispatch c sel (.listMove i j) p = .ok (sel', e) p') :
    Outcome c sel p (.listMove i j) sel' e p' := by
  rw [dispatch_listMove] at h
  obtain ⟨l, column, name, s, hl, hname, hdone, rfl, rfl, rfl⟩ := editSelected_ok h
  exact .listMove hl hname hdone

theorem listSwap_outcome {i j : UInt32}
    (h : dispatch c sel (.listSwap i j) p = .ok (sel', e) p') :
    Outcome c sel p (.listSwap i j) sel' e p' := by
  rw [dispatch_listSwap] at h
  obtain ⟨l, column, name, s, hl, hname, hdone, rfl, rfl, rfl⟩ := editSelected_ok h
  exact .listSwap hl hname hdone

theorem listClear_outcome
    (h : listClear sel p = .ok (sel', e) p') :
    Outcome c sel p .listClear sel' e p' := by
  simp only [listClear, listLabel, Functor.map_map, tableName, bind_pure_comp, look_bind_ok_iff,
    onStore_bind_ok_iff, ActionLaws.map_ok_iff, look_ok_iff, Prod.mk.injEq, Prod.exists] at h
  obtain ⟨l, column, hl, n, hn, ⟨⟩, s, h, name, ⟨hname, rfl⟩, rfl, rfl⟩ := h
  rw [(Store.editList_keepsNames _ _).tableName_eq h] at hname
  exact .listClear hl hn hname h

/-- A successful step has one of the outcomes. -/
theorem dispatch_outcome {i : Instruction} (h : dispatch c sel i p = .ok (sel', e) p') :
    Outcome c sel p i sel' e p' := by
  cases i with
  | addTable id key => exact addTable_outcome h
  | eraseTable id => exact eraseTable_outcome h
  | addColumn id column type nullable isList target => exact addColumn_outcome h
  | eraseColumn id column => exact eraseColumn_outcome h
  | selectTable id => exact selectTable_outcome h
  | selectField ref field => exact selectField_outcome h
  | selectLinkList ref field => exact selectLinkList_outcome h
  | createObject key => exact createObject_outcome h
  | eraseObject ref => exact eraseObject_outcome h
  | set ref field payload => exact set_outcome h
  | addInteger ref field delta => exact addInteger_outcome h
  | listInsert i payload => exact listInsert_outcome h
  | listSet i payload => exact listSet_outcome h
  | listErase i => exact listErase_outcome h
  | listMove source target => exact listMove_outcome h
  | listSwap i j => exact listSwap_outcome h
  | listClear => exact listClear_outcome h

end Step
end ChangesetReplay
