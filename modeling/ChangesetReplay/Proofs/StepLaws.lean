import ChangesetReplay.Proofs.StoreCalls
import ChangesetReplay.Replay.Step

/-! # Steps taken apart

A step looks things up, acts on the store at most once, and then names tables for its effect. The
names of tables are what all actions but those on whole tables leave alone, so that this last part
cannot fail. -/

namespace ChangesetReplay

namespace Store
variable {α β : Type} {s s' : Store} {k j : TableKey}

theorem tableName_eq_of_names (h : (s'.tables[k]?).map (·.name) = (s.tables[k]?).map (·.name)) :
    s'.tableName k = s.tableName k := by
  simp only [tableName, table]
  cases hs : s.tables[k]? with
  | none => simp_all
  | some t =>
    rw [hs] at h
    obtain ⟨t', ht', hn⟩ := Option.map_eq_some_iff.mp h
    simp [ht', hn, bind, Except.bind]

theorem tableName_putTable {t t' : Table} (ht : s.tables[k]? = some t) (hn : t'.name = t.name) :
    (s.putTable k t').tableName j = s.tableName j := by
  apply tableName_eq_of_names
  by_cases h : k = j
  · subst h
    simp [putTable, ht, hn]
  · simp [putTable, Std.ExtTreeMap.getElem?_insert, Std.LawfulEqCmp.compare_eq_iff_eq, h]

theorem tableName_dropLinks {target : String} {object : ObjectKey} :
    (s.dropLinks target object).tableName j = s.tableName j := by
  apply tableName_eq_of_names
  simp [dropLinks, Table.dropLinks, Table.mapObjects, Function.comp_def]

theorem tableName_putCell {f : FieldRef} {c : Cell} :
    (s.putCell f c).tableName j = s.tableName j := by
  apply tableName_eq_of_names
  by_cases h : f.table = j
  · subst h
    simp [putCell, Table.setCell, Function.comp_def]
  · simp [putCell, Std.ExtTreeMap.getElem?_modify, Std.LawfulEqCmp.compare_eq_iff_eq, h]

theorem addTable_tableName {name : String} {keyDef : Option KeyDef}
    (h : addTable name keyDef s = .ok k s') : s'.tableName k = .ok name := by
  obtain ⟨-, -, rfl, rfl⟩ := addTable_ok_iff.mp h
  refine tableName_ok_iff.mpr ⟨.blank ⟨s.nextTable⟩ name keyDef, by simp [putTable], ?_⟩
  cases keyDef <;> rfl

/-- When it succeeds, the table `k` is there, and no table has changed its name. -/
def KeepsNames (k : TableKey) (act : Action α) : Prop :=
  ∀ s a s', act s = .ok a s' →
    (∃ t, s.tables[k]? = some t) ∧ ∀ j, s'.tableName j = s.tableName j

namespace KeepsNames
variable {act : Action α} {a : α}

theorem tableName_eq (hk : KeepsNames k act) (h : act s = .ok a s') :
    s'.tableName j = s.tableName j :=
  (hk s a s' h).2 j

theorem named (hk : KeepsNames k act) (h : act s = .ok a s') :
    ∃ name, s'.tableName k = .ok name := by
  obtain ⟨⟨t, ht⟩, hnames⟩ := hk s a s' h
  exact ⟨t.name, (hnames k).trans (tableName_ok_iff.mpr ⟨t, ht, rfl⟩)⟩

theorem after {x : Action β} {f : β → Action α} (hx : ActionLaws.ReadOnly x)
    (hf : ∀ b, KeepsNames k (f b)) : KeepsNames k (x >>= f) := by
  intro s a s' h
  obtain ⟨b, t, hb, h⟩ := ActionLaws.bind_ok_iff.mp h
  cases (hx s).1 b t hb
  exact hf b s a s' h

end KeepsNames

theorem addColumn_keepsNames (d : ColumnDef) : KeepsNames k (addColumn k d) := by
  intro s c s' h
  obtain ⟨-, -, t, ht, -, -, -, rfl⟩ := addColumn_ok_iff.mp h
  exact ⟨⟨t, ht⟩, fun j => tableName_putTable ht rfl⟩

theorem eraseColumn_keepsNames (c : ColumnKey) : KeepsNames k (eraseColumn k c) := by
  intro s u s' h
  obtain ⟨t, -, ht, -, -, rfl⟩ := eraseColumn_ok_iff.mp h
  exact ⟨⟨t, ht⟩, fun j => tableName_putTable ht rfl⟩

theorem createObject_keepsNames (key : Option PrimaryKey) : KeepsNames k (createObject k key) := by
  intro s o s' h
  obtain ⟨t, ht, -, -, -, rfl⟩ := createObject_ok_iff.mp h
  exact ⟨⟨t, ht⟩, fun j => tableName_putTable ht rfl⟩

theorem eraseObject_keepsNames (o : ObjectKey) : KeepsNames k (eraseObject k o) := by
  intro s u s' h
  obtain ⟨t, ht, -, rfl⟩ := eraseObject_ok_iff.mp h
  exact ⟨⟨t, ht⟩, fun j => tableName_dropLinks.trans (tableName_putTable ht rfl)⟩

theorem setScalar_keepsNames (f : FieldRef) (v : Value) : KeepsNames f.table (setScalar f v) := by
  intro s u s' h
  obtain ⟨t, _, _, _, hat, -, -, -, rfl⟩ := setScalar_ok_iff.mp h
  exact ⟨⟨t, hat.table⟩, fun j => tableName_putCell⟩

theorem addInt_keepsNames (f : FieldRef) (delta : Int64) : KeepsNames f.table (addInt f delta) := by
  intro s sum s' h
  obtain ⟨t, _, _, _, hat, -, -, -, rfl⟩ := addInt_ok_iff.mp h
  exact ⟨⟨t, hat.table⟩, fun j => tableName_putCell⟩

theorem editList_keepsNames (f : FieldRef) (edit : List Value → Except Cause (List Value)) :
    KeepsNames f.table (editList f edit) := by
  intro s u s' h
  obtain ⟨l, _, hl, -, rfl⟩ := editList_ok_iff.mp h
  obtain ⟨t, _, _, hat⟩ := items_ok_iff.mp hl
  exact ⟨⟨t, hat.table⟩, fun j => tableName_putCell⟩

theorem checkedEdit_keepsNames (f : FieldRef) (v : Value)
    (edit : List Value → Except Cause (List Value)) :
    KeepsNames f.table (checkElement f v >>= fun _ => editList f edit) :=
  .after (checkElement_readOnly f v) fun _ => editList_keepsNames f edit

end Store

namespace Step
variable {α β : Type} {p p' : Progress}

@[simp] theorem look_ok_iff {f : Progress → Except Cause α} {a : α} :
    look f p = .ok a p' ↔ f p = .ok a ∧ p = p' := by
  unfold look
  cases f p <;> simp

@[simp] theorem look_bind_ok_iff {f : Progress → Except Cause α} {g : α → Step β} {b : β} :
    (look f >>= g) p = .ok b p' ↔ ∃ a, f p = .ok a ∧ g a p = .ok b p' := by
  simp only [ActionLaws.bind_ok_iff, look_ok_iff]
  constructor
  · rintro ⟨a, q, ⟨h, rfl⟩, hg⟩
    exact ⟨a, h, hg⟩
  · rintro ⟨a, h, hg⟩
    exact ⟨a, p, ⟨h, rfl⟩, hg⟩

@[simp] theorem onStore_ok_iff {act : Store.Action α} {a : α} :
    onStore act p = .ok a p' ↔ ∃ s, act p.store = .ok a s ∧ { p with store := s } = p' := by
  unfold onStore
  cases act p.store with
  | error e s => simp
  | ok b s =>
    simp only [EStateM.Result.ok.injEq]
    constructor
    · rintro ⟨rfl, rfl⟩
      exact ⟨s, ⟨rfl, rfl⟩, rfl⟩
    · rintro ⟨s', ⟨rfl, rfl⟩, rfl⟩
      exact ⟨rfl, rfl⟩

@[simp] theorem onStore_bind_ok_iff {act : Store.Action α} {g : α → Step β} {b : β} :
    (onStore act >>= g) p = .ok b p' ↔
      ∃ a s, act p.store = .ok a s ∧ g a { p with store := s } = .ok b p' := by
  simp only [ActionLaws.bind_ok_iff, onStore_ok_iff]
  constructor
  · rintro ⟨a, q, ⟨s, h, rfl⟩, hg⟩
    exact ⟨a, s, h, hg⟩
  · rintro ⟨a, s, h, hg⟩
    exact ⟨a, _, ⟨s, h, rfl⟩, hg⟩

theorem look_readOnly (f : Progress → Except Cause α) : ActionLaws.ReadOnly (look f) := by
  intro p
  unfold look
  cases f p <;> simp_all

theorem onStore_atomic {act : Store.Action α} (h : ActionLaws.Atomic act) :
    ActionLaws.Atomic (onStore act) := by
  intro p e p' he
  unfold onStore at he
  cases hs : act p.store with
  | ok a s => simp [hs] at he
  | error c s =>
    simp only [hs, EStateM.Result.error.injEq] at he
    obtain ⟨-, rfl⟩ := he
    rw [h p.store c s hs]

theorem selectedList_ok_iff {sel : Selection} {p : Progress} {l : Container} {column : Column} :
    selectedList sel p = .ok (l, column) ↔
      sel.container = .ok l ∧ p.store.column l.table l.column = .ok column := by
  simp only [selectedList, Reading.bind_ok_iff, Reading.pure_ok_iff, Prod.mk.injEq]
  constructor
  · rintro ⟨l', hl, column', hcolumn, rfl, rfl⟩
    exact ⟨hl, hcolumn⟩
  · rintro ⟨hl, hcolumn⟩
    exact ⟨l, hl, column, hcolumn, rfl, rfl⟩

variable (c : Changeset) (sel : Selection)

def editSelected (edit : List Value → Except Cause (List Value)) (effect : String → Effect) :
    Step (Selection × Effect) := do
  let (l, column) ← look (selectedList sel)
  onStore (Store.editList l.fieldRef edit)
  return (sel, effect (← listLabel l column))

def writeSelected (payload : Payload) (edit : Value → List Value → Except Cause (List Value))
    (effect : String → Value → Effect) : Step (Selection × Effect) := do
  let (l, column) ← look (selectedList sel)
  let v ← look fun p => value c p column.definition l.target payload
  onStore (Store.checkElement l.fieldRef v >>= fun _ => Store.editList l.fieldRef (edit v))
  return (sel, effect (← listLabel l column) v)

theorem dispatch_listInsert (i : UInt32) (payload : Payload) :
    dispatch c sel (.listInsert i payload) = writeSelected c sel payload (Sequence.insert i.toNat)
      fun label => .listInserted label i.toNat :=
  rfl

theorem dispatch_listSet (i : UInt32) (payload : Payload) :
    dispatch c sel (.listSet i payload) = writeSelected c sel payload (Sequence.set i.toNat)
      fun label => .listSet label i.toNat :=
  rfl

theorem dispatch_listErase (i : UInt32) :
    dispatch c sel (.listErase i) = editSelected sel (Sequence.erase i.toNat)
      fun label => .listErased label i.toNat :=
  rfl

theorem dispatch_listMove (i j : UInt32) :
    dispatch c sel (.listMove i j) = editSelected sel (Sequence.move i.toNat j.toNat)
      fun label => .listMoved label i.toNat j.toNat :=
  rfl

theorem dispatch_listSwap (i j : UInt32) :
    dispatch c sel (.listSwap i j) = editSelected sel (Sequence.swap i.toNat j.toNat)
      fun label => .listSwapped label i.toNat j.toNat :=
  rfl

variable {c sel} {sel' : Selection} {e : Effect}

theorem editSelected_ok {edit : List Value → Except Cause (List Value)} {effect : String → Effect}
    (h : editSelected sel edit effect p = .ok (sel', e) p') :
    ∃ l column name s, selectedList sel p = .ok (l, column) ∧
      p.store.tableName l.table = .ok name ∧ Store.editList l.fieldRef edit p.store = .ok () s ∧
      sel = sel' ∧ effect (Effect.place name l.object column.definition.name) = e ∧
      { p with store := s } = p' := by
  simp only [editSelected, listLabel, Functor.map_map, tableName, bind_pure_comp, look_bind_ok_iff,
    onStore_bind_ok_iff, ActionLaws.map_ok_iff, look_ok_iff, Prod.mk.injEq, Prod.exists] at h
  obtain ⟨l, column, hl, ⟨⟩, s, h, name, ⟨hname, rfl⟩, rfl, rfl⟩ := h
  rw [(Store.editList_keepsNames _ _).tableName_eq h] at hname
  exact ⟨l, column, name, s, hl, hname, h, rfl, rfl, rfl⟩

theorem writeSelected_ok {payload : Payload} {edit : Value → List Value → Except Cause (List Value)}
    {effect : String → Value → Effect}
    (h : writeSelected c sel payload edit effect p = .ok (sel', e) p') :
    ∃ l column v name s, selectedList sel p = .ok (l, column) ∧
      value c p column.definition l.target payload = .ok v ∧
      p.store.tableName l.table = .ok name ∧
      (Store.checkElement l.fieldRef v >>= fun _ => Store.editList l.fieldRef (edit v)) p.store =
        .ok () s ∧
      sel = sel' ∧ effect (Effect.place name l.object column.definition.name) v = e ∧
      { p with store := s } = p' := by
  simp only [writeSelected, listLabel, Functor.map_map, tableName, bind_pure_comp, look_bind_ok_iff,
    onStore_bind_ok_iff, ActionLaws.map_ok_iff, look_ok_iff, Prod.mk.injEq, Prod.exists] at h
  obtain ⟨l, column, hl, v, hv, ⟨⟩, s, h, name, ⟨hname, rfl⟩, rfl, rfl⟩ := h
  rw [(Store.checkedEdit_keepsNames _ _ _).tableName_eq h] at hname
  exact ⟨l, column, v, name, s, hl, hv, hname, h, rfl, rfl, rfl⟩

end Step
end ChangesetReplay
