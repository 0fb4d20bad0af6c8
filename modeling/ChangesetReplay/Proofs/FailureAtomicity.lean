import ChangesetReplay.Proofs.StepOutcomes
import ChangesetReplay.State.Snapshot

/-! # Failures leave nothing behind

A call of a store, an import and a step do all their checks before their first write. The only thing
that comes after a write and could fail is the lookup of a table name for the effect, and the table
named is there because the write succeeded. -/

namespace ChangesetReplay

open ActionLaws

namespace Store
theorem importState_atomic (snapshot : Snapshot) : Atomic (importState snapshot) := by
  refine .bind (.read _) fun _ => .of_total ?_
  exact .bind (.modify _) fun _ => .bind (.modify _) fun _ => .modify _

end Store

theorem Changeset.createTable_atomic (c : Changeset) (id : NameId) (key : Option KeySpec) :
    Atomic (c.createTable id key) := by
  simp only [createTable, throw_bind]
  refine .bind (.read _) fun name => .bind .get fun s => .guard ?_ _
  cases key with
  | none => exact .bind (.pure _) fun _ => Store.addTable_atomic _ _
  | some spec => exact .bind (.read _) fun _ => .bind (.pure _) fun _ => Store.addTable_atomic _ _

/-- A created table can be named: all that `createTable` does to the store is to add it. -/
theorem Changeset.createTable_named {c : Changeset} {id : NameId} {key : Option KeySpec}
    {s s' : Store} {t : TableKey} (h : c.createTable id key s = .ok t s') :
    ∃ name, s'.tableName t = .ok name := by
  obtain ⟨name, _, _, _, hadd⟩ := createTable_ok_iff.mp h
  exact ⟨name, Store.addTable_tableName hadd⟩

namespace Step
variable {α β : Type} {t : TableKey}

/-- It succeeds on every store that has the table `t`, and leaves the store alone. -/
def Names (t : TableKey) (x : Step α) : Prop :=
  ∀ p name, p.store.tableName t = .ok name → ∃ a p', x p = .ok a p' ∧ p'.store = p.store

namespace Names

theorem pure (a : α) : Names t (pure a) := fun p _ _ => ⟨a, p, rfl, rfl⟩

theorem tableName (t : TableKey) : Names t (tableName t) :=
  fun p name h => ⟨name, p, look_ok_iff.mpr ⟨h, rfl⟩, rfl⟩

theorem register (h : Handle) : Names t (register h) := fun _ _ _ => ⟨_, _, rfl, rfl⟩

theorem bind {x : Step α} {f : α → Step β} (hx : Names t x) (hf : ∀ a, Names t (f a)) :
    Names t (x >>= f) := by
  intro p name h
  obtain ⟨a, q, ha, hq⟩ := hx p name h
  obtain ⟨b, p', hb, hp⟩ := hf a q name (hq ▸ h)
  exact ⟨b, p', bind_ok_iff.mpr ⟨a, q, ha, hb⟩, hp.trans hq⟩

theorem listLabel (l : Container) (column : Column) : Names l.table (listLabel l column) :=
  .bind (.tableName _) fun _ => .pure _

end Names

/-- After an action on the store, a step may go on to name a table that the action left there. -/
theorem onStore_bind_atomic {act : Store.Action α} {g : α → Step β} {t : α → TableKey}
    (hact : Atomic act)
    (hnamed : ∀ {s a s'}, act s = .ok a s' → ∃ name, s'.tableName (t a) = .ok name)
    (hg : ∀ a, Names (t a) (g a)) : Atomic (onStore act >>= g) := by
  refine .bind_of_ok (onStore_atomic hact) fun p a q h => ?_
  obtain ⟨s, hs, rfl⟩ := onStore_ok_iff.mp h
  obtain ⟨name, hname⟩ := hnamed hs
  obtain ⟨b, p', hb, -⟩ := hg a { p with store := s } name hname
  exact ⟨b, p', hb⟩

/-- An action that keeps the names of tables, and then the effect, which names its table. -/
theorem onStore_label_atomic {act : Store.Action α} {g : α → Step β} (hact : Atomic act)
    (hk : Store.KeepsNames t act) (hg : ∀ a, Names t (g a)) : Atomic (onStore act >>= g) :=
  onStore_bind_atomic (t := fun _ => t) hact (fun h => hk.named h) hg

variable (c : Changeset) (sel : Selection)

theorem addTable_atomic (id : NameId) (key : Option KeySpec) : Atomic (addTable c sel id key) :=
  onStore_bind_atomic (t := fun t => t) (c.createTable_atomic id key)
    (fun h => Changeset.createTable_named h) fun t => .bind (.tableName t) fun _ => .pure _

theorem eraseTable_atomic (id : NameId) : Atomic (eraseTable c sel id) := by
  refine .bind (look_readOnly _) fun t => .bind (look_readOnly _) fun name => ?_
  exact .bind_of_ok (onStore_atomic (Store.eraseTable_atomic t)) fun p a q _ => ⟨_, _, rfl⟩

theorem addColumn_atomic (id : NameId) (d : ColumnDef) : Atomic (addColumn c sel id d) := by
  refine .bind (look_readOnly _) fun t => ?_
  exact onStore_label_atomic (Store.addColumn_atomic t d) (Store.addColumn_keepsNames d)
    fun _ => .bind (.tableName t) fun _ => .pure _

theorem eraseColumn_atomic (id column : NameId) : Atomic (eraseColumn c sel id column) := by
  refine .bind (look_readOnly _) fun t => .bind (look_readOnly _) fun found => ?_
  exact onStore_label_atomic (Store.eraseColumn_atomic t found.key)
    (Store.eraseColumn_keepsNames found.key) fun _ => .bind (.tableName t) fun _ => .pure _

theorem selectTable_atomic (id : NameId) : Atomic (selectTable c id) :=
  .of_readOnly <| .bind (look_readOnly _) fun _ => .bind (look_readOnly _) fun _ =>
    .bind (look_readOnly _) fun _ => .pure _

theorem selectField_atomic (ref : ObjectRef) (field : NameId) :
    Atomic (selectField c sel ref field) :=
  .of_readOnly <| .bind (look_readOnly _) fun _ => .bind (look_readOnly _) fun _ =>
    .bind (look_readOnly _) fun _ => .bind (look_readOnly _) fun _ => .pure _

theorem selectLinkList_atomic (ref : ObjectRef) (field : NameId) :
    Atomic (selectLinkList c sel ref field) := by
  refine .bind (look_readOnly _) fun next => .bind (look_readOnly _) fun l => ?_
  cases l.target with
  | none => exact .throw _
  | some target =>
    exact .of_readOnly <| .bind (look_readOnly _) fun _ => .bind (look_readOnly _) fun _ =>
      .bind (look_readOnly _) fun _ => .pure _

theorem createObject_atomic (key : Option KeyPayload) : Atomic (createObject c sel key) := by
  have hcreate : ∀ t key', Atomic (do
      let object ← onStore (Store.createObject t key')
      let index ← register ⟨t, object⟩
      return (sel, .objectCreated (← tableName t) object index) : Step (Selection × Effect)) :=
    fun t key' => onStore_label_atomic (Store.createObject_atomic t key')
      (Store.createObject_keepsNames key') fun object =>
        .bind (.register _) fun _ => .bind (.tableName t) fun _ => .pure _
  refine .bind (look_readOnly _) fun t => ?_
  cases key with
  | none => exact .bind (.pure _) fun key' => hcreate t key'
  | some k => exact .bind (look_readOnly _) fun _ => .bind (.pure _) fun key' => hcreate t key'

theorem eraseObject_atomic (ref : ObjectRef) : Atomic (eraseObject c sel ref) := by
  refine .bind (look_readOnly _) fun t => .bind (look_readOnly _) fun object => ?_
  exact onStore_label_atomic (Store.eraseObject_atomic t object)
    (Store.eraseObject_keepsNames object) fun _ => .bind (.tableName t) fun _ => .pure _

theorem set_atomic (ref : ObjectRef) (field : NameId) (payload : Payload) :
    Atomic (set c sel ref field payload) := by
  refine .bind (look_readOnly _) fun ⟨t, object, column⟩ => .bind (look_readOnly _) fun target =>
    .bind (look_readOnly _) fun v => ?_
  exact onStore_label_atomic (Store.setScalar_atomic _ v) (Store.setScalar_keepsNames _ v)
    fun _ => .bind (.tableName t) fun _ => .pure _

theorem addInteger_atomic (ref : ObjectRef) (field : NameId) (delta : Int64) :
    Atomic (addInteger c sel ref field delta) := by
  simp only [addInteger, throw_bind]
  refine .bind (look_readOnly _) fun place => ?_
  obtain ⟨t, object, column⟩ := place
  refine .guard ?_ _
  exact onStore_label_atomic (Store.addInt_atomic _ delta) (Store.addInt_keepsNames _ delta)
    fun _ => .bind (.tableName t) fun _ => .pure _

theorem editSelected_atomic (edit : List Value → Except Cause (List Value))
    (effect : String → Effect) : Atomic (editSelected sel edit effect) := by
  refine .bind (look_readOnly _) fun ⟨l, column⟩ => ?_
  exact onStore_label_atomic (Store.editList_atomic _ _) (Store.editList_keepsNames _ _)
    fun _ => .bind (.listLabel l column) fun _ => .pure _

theorem writeSelected_atomic (payload : Payload)
    (edit : Value → List Value → Except Cause (List Value)) (effect : String → Value → Effect) :
    Atomic (writeSelected c sel payload edit effect) := by
  refine .bind (look_readOnly _) fun ⟨l, column⟩ => .bind (look_readOnly _) fun v => ?_
  exact onStore_label_atomic (Store.checkedEdit_atomic _ v _) (Store.checkedEdit_keepsNames _ v _)
    fun _ => .bind (.listLabel l column) fun _ => .pure _

theorem listClear_atomic : Atomic (listClear sel) := by
  refine .bind (look_readOnly _) fun ⟨l, column⟩ => .bind (look_readOnly _) fun length => ?_
  exact onStore_label_atomic (Store.editList_atomic _ _) (Store.editList_keepsNames _ _)
    fun _ => .bind (.listLabel l column) fun _ => .pure _

/-- A failed step leaves the store and the list of created objects as they were. -/
theorem dispatch_atomic (i : Instruction) : Atomic (dispatch c sel i) := by
  cases i with
  | addTable id key => exact addTable_atomic c sel id key
  | eraseTable id => exact eraseTable_atomic c sel id
  | addColumn id column type nullable isList target =>
    exact .bind (look_readOnly _) fun d => addColumn_atomic c sel id d
  | eraseColumn id column => exact eraseColumn_atomic c sel id column
  | selectTable id => exact selectTable_atomic c id
  | selectField ref field => exact selectField_atomic c sel ref field
  | selectLinkList ref field => exact selectLinkList_atomic c sel ref field
  | createObject key => exact createObject_atomic c sel key
  | eraseObject ref => exact eraseObject_atomic c sel ref
  | set ref field payload => exact set_atomic c sel ref field payload
  | addInteger ref field delta => exact addInteger_atomic c sel ref field delta
  | listInsert i payload =>
    rw [dispatch_listInsert]
    exact writeSelected_atomic c sel payload _ _
  | listSet i payload =>
    rw [dispatch_listSet]
    exact writeSelected_atomic c sel payload _ _
  | listErase i =>
    rw [dispatch_listErase]
    exact editSelected_atomic sel _ _
  | listMove source target =>
    rw [dispatch_listMove]
    exact editSelected_atomic sel _ _
  | listSwap i j =>
    rw [dispatch_listSwap]
    exact editSelected_atomic sel _ _
  | listClear => exact listClear_atomic sel

end Step

/-- Whatever the store, the selection and the objects created so far are, a step, a call of the
store or an import that fails changes nothing. -/
theorem failure_leaves_state :
    (∀ (c : Changeset) (sel : Selection) (i : Instruction) (p p' : Progress) (cause : Cause),
      Step.dispatch c sel i p = .error cause p' → p' = p) ∧
    (∀ (call : Store.Call) (s s' : Store) (cause : Cause),
      call.run s = .error cause s' → s' = s) ∧
    ∀ (snapshot : Snapshot) (s s' : Store) (cause : Cause),
      Store.importState snapshot s = .error cause s' → s' = s :=
  ⟨fun c sel i p p' cause h => Step.dispatch_atomic c sel i p cause p' h,
    fun call s s' cause h => call.run_atomic s cause s' h,
    fun snapshot s s' cause h => Store.importState_atomic snapshot s cause s' h⟩

def Store.people : Store :=
  (Store.new 1).putTable ⟨0⟩ ((Table.blank ⟨0⟩ "people" (some ⟨"id", .int, false⟩)).pushObject
    (some (.int 7))).2

/-- A number that is taken, the column of numbers, which cannot be erased, and a snapshot with two
tables of one name. -/
theorem failure_leaves_state_people :
    (∃ p', Step.dispatch (.new 1) (.table ⟨0⟩) (.createObject (some (.int 7))) ⟨.people, []⟩ =
      .error (.objectExists "people" "7") p' ∧ p' = ⟨.people, []⟩) ∧
    (∃ s', (Store.Call.eraseColumn ⟨0⟩ ⟨0⟩).run .people =
      .error (.primaryKeyColumn "people" "id") s' ∧ s' = .people) ∧
    ∃ s', Store.importState ⟨1, 1, 2, [.blank ⟨0⟩ "a" none, .blank ⟨1⟩ "a" none]⟩ .people =
      .error (.invalidSnapshot "duplicate table name: a") s' ∧ s' = .people := by
  refine ⟨⟨⟨.people, []⟩, by rfl, ?_⟩, ⟨.people, by rfl, ?_⟩, ⟨.people, by rfl, ?_⟩⟩
  · exact failure_leaves_state.1 (.new 1) (.table ⟨0⟩) (.createObject (some (.int 7))) _ _
      (.objectExists "people" "7") (by rfl)
  · exact failure_leaves_state.2.1 (.eraseColumn ⟨0⟩ ⟨0⟩) _ _ (.primaryKeyColumn "people" "id")
      (by rfl)
  · exact failure_leaves_state.2.2 ⟨1, 1, 2, [.blank ⟨0⟩ "a" none, .blank ⟨1⟩ "a" none]⟩ _ _
      (.invalidSnapshot "duplicate table name: a") (by rfl)

end ChangesetReplay
