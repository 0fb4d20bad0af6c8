import ChangesetReplay.Proofs.ScalarWrites

/-! # Object references

An object is referred to by its key, by the number under which it was created, or by its primary
key. The three are looked up in three places: among the objects of the table, in the list of what
was created, and in the index. They come to one notion, the object that a reference denotes in a
table; and no instruction tells references apart that denote the same object. -/

namespace ChangesetReplay

/-- The reference stands for the object `x` of the table `t` under the key `k`: it is its key, it is
the number under which it was created in that table, or it is a primary key that the table admits
and that `x` has, and no other object. -/
inductive ObjectRef.Denotes (c : Changeset) (created : List Handle) (k : TableKey) (t : Table)
    (x : ObjectKey) : ObjectRef → Prop where
  | key : Denotes c created k t x (.key x)
  | created {index : UInt32} (listed : created[index.toNat]? = some ⟨k, x⟩) :
      Denotes c created k t x (.created index)
  | primaryKey {payload : KeyPayload} {p : PrimaryKey} {d : KeyDef}
      (resolved : c.primaryKey payload = .ok p) (keyed : t.keyDef = some d)
      (admitted : d.check t.name (some p) = .ok ())
      (only : ∀ y : ObjectKey, (∃ o, t.objects[y]? = some o ∧ o.primaryKey = some p) ↔ y = x) :
      Denotes c created k t x (.primaryKey payload)

namespace Changeset
variable {c : Changeset} {s : Store} {created : List Handle} {k : TableKey} {t : Table}
variable {x : ObjectKey} {ref : ObjectRef}

theorem object_created_ok_iff {index : UInt32} :
    c.object s created k (.created index) = .ok x ↔
      created[index.toNat]? = some ⟨k, x⟩ ∧ s.Holds ⟨k, x⟩ := by
  cases hlisted : created[index.toNat]? with
  | none => simp [object, handle, hlisted, Reading.error_bind]
  | some h =>
    obtain ⟨j, y⟩ := h
    by_cases hj : j = k
    · subst hj
      simp only [object, handle, hlisted, Reading.ok_bind, ne_eq, not_true_eq_false, if_false,
        existing_ok_iff, Option.some.injEq, Handle.mk.injEq, true_and]
      constructor
      · rintro ⟨rfl, hholds⟩
        exact ⟨rfl, hholds⟩
      · rintro ⟨rfl, hholds⟩
        exact ⟨rfl, hholds⟩
    · simp [object, handle, hlisted, Reading.ok_bind, hj]

theorem object_primaryKey_ok_iff {payload : KeyPayload} (ht : s.tables[k]? = some t) :
    c.object s created k (.primaryKey payload) = .ok x ↔
      ∃ p d, c.primaryKey payload = .ok p ∧ t.keyDef = some d ∧
        d.check t.name (some p) = .ok () ∧ t.keyIndex[p]? = some x := by
  have hkeyDef : s.keyDef k = .ok t.keyDef := Store.table_bind_of_tables ht
  have hfound : ∀ p, s.findObject k p = .ok (t.keyIndex[p]?) := fun p =>
    Store.table_bind_of_tables ht
  simp only [object, Store.tableName_of_tables ht, hkeyDef, hfound, Reading.ok_bind,
    Reading.bind_ok_iff]
  refine exists_congr fun p => ?_
  cases t.keyDef with
  | none => simp
  | some d =>
    cases hindex : t.keyIndex[p]? with
    | none => simp
    | some y => simp

/-- A reference is resolved in a table to the object that it denotes there, if that object is there,
and to no other. -/
theorem object_ok_iff (hs : s.Coherent) (ht : s.tables[k]? = some t) :
    c.object s created k ref = .ok x ↔ x ∈ t.objects ∧ ref.Denotes c created k t x := by
  have hholds : ∀ y, s.Holds ⟨k, y⟩ ↔ y ∈ t.objects := by
    intro y
    simp [Store.Holds, ht]
  have hindexed := (hs.table k t ht).indexed
  cases ref with
  | key y =>
    show existing s k y y.text = .ok x ↔ _
    rw [existing_ok_iff, hholds]
    constructor
    · rintro ⟨rfl, hy⟩
      exact ⟨hy, .key⟩
    · rintro ⟨hx, hdenotes⟩
      cases hdenotes
      exact ⟨rfl, hx⟩
  | created index =>
    rw [object_created_ok_iff, hholds]
    constructor
    · rintro ⟨hlisted, hx⟩
      exact ⟨hx, .created hlisted⟩
    · rintro ⟨hx, hdenotes⟩
      cases hdenotes with
      | created listed => exact ⟨listed, hx⟩
  | primaryKey payload =>
    rw [object_primaryKey_ok_iff ht]
    constructor
    · rintro ⟨p, d, hp, hd, hcheck, hindex⟩
      obtain ⟨o, ho, hkey⟩ := (hindexed p x).mp hindex
      refine ⟨FiniteMap.mem_iff_exists.mpr ⟨o, ho⟩, .primaryKey hp hd hcheck fun y => ?_⟩
      constructor
      · rintro ⟨o', ho', hkey'⟩
        exact hindexed.unique ho' ho hkey' hkey
      · rintro rfl
        exact ⟨o, ho, hkey⟩
    · rintro ⟨hx, hdenotes⟩
      cases hdenotes with
      | @primaryKey _ p d resolved keyed admitted only =>
        exact ⟨p, d, resolved, keyed, admitted, (hindexed p x).mpr ((only x).mpr rfl)⟩

end Changeset

def Payload.reference? : Payload → Option ObjectRef
  | link ref => some ref
  | _ => none

namespace Instruction

def references : Instruction → List ObjectRef
  | selectField ref _ | selectLinkList ref _ | eraseObject ref | addInteger ref _ _ => [ref]
  | set ref _ payload => ref :: payload.reference?.toList
  | listInsert _ payload | listSet _ payload => payload.reference?.toList
  | _ => []

/-- A place for a reference in an instruction, with all the rest of the instruction. -/
inductive Slot where
  | selectField (field : NameId)
  | selectLinkList (field : NameId)
  | eraseObject
  | addInteger (field : NameId) (delta : Int64)
  | set (field : NameId) (payload : Payload)
  | setLink (object : ObjectRef) (field : NameId)
  | listInsertLink (index : UInt32)
  | listSetLink (index : UInt32)

namespace Slot

def fill (ref : ObjectRef) : Slot → Instruction
  | selectField field => .selectField ref field
  | selectLinkList field => .selectLinkList ref field
  | eraseObject => .eraseObject ref
  | addInteger field delta => .addInteger ref field delta
  | set field payload => .set ref field payload
  | setLink object field => .set object field (.link ref)
  | listInsertLink index => .listInsert index (.link ref)
  | listSetLink index => .listSet index (.link ref)

/-- The table in which a reference is looked up: for a link the one that the field or the selected
list leads to, otherwise the selected one. -/
def table? (c : Changeset) (s : Store) (sel : Selection) : Slot → Option TableKey
  | setLink _ field => do
    let column ← (c.column s (← sel.selectedTable.toOption) field).toOption
    s.findTable (← column.definition.linkTarget)
  | listInsertLink _ | listSetLink _ => do (← sel.container.toOption).target
  | _ => sel.selectedTable.toOption

end Slot

/-- Each reference in an instruction is in one of the places. -/
theorem mem_references_iff {i : Instruction} {ref : ObjectRef} :
    ref ∈ i.references ↔ ∃ slot : Slot, slot.fill ref = i := by
  constructor
  · intro h
    cases i with
    | selectField r field =>
      cases List.mem_singleton.mp h
      exact ⟨.selectField field, rfl⟩
    | selectLinkList r field =>
      cases List.mem_singleton.mp h
      exact ⟨.selectLinkList field, rfl⟩
    | eraseObject r =>
      cases List.mem_singleton.mp h
      exact ⟨.eraseObject, rfl⟩
    | addInteger r field delta =>
      cases List.mem_singleton.mp h
      exact ⟨.addInteger field delta, rfl⟩
    | set r field payload =>
      rcases List.mem_cons.mp h with rfl | h
      · exact ⟨.set field payload, rfl⟩
      · cases payload with
        | link r' =>
          cases List.mem_singleton.mp h
          exact ⟨.setLink r field, rfl⟩
        | _ => cases h
    | listInsert index payload =>
      cases payload with
      | link r =>
        cases List.mem_singleton.mp h
        exact ⟨.listInsertLink index, rfl⟩
      | _ => cases h
    | listSet index payload =>
      cases payload with
      | link r =>
        cases List.mem_singleton.mp h
        exact ⟨.listSetLink index, rfl⟩
      | _ => cases h
    | _ => cases h
  · rintro ⟨slot, rfl⟩
    cases slot with
    | set field payload => exact List.mem_cons_self
    | setLink object field => exact List.mem_cons_of_mem _ (List.mem_singleton.mpr rfl)
    | _ => exact List.mem_singleton.mpr rfl

end Instruction

theorem Reading.bind_congr_of_ok {ε α β : Type} {x : Except ε α} {f g : α → Except ε β}
    (h : ∀ a, x = .ok a → f a = g a) : (x >>= f) = (x >>= g) := by
  cases x with
  | error e => rfl
  | ok a => exact h a rfl

namespace Step
variable {c : Changeset} {sel : Selection} {p : Progress} {ref ref' : ObjectRef} {field : NameId}

/-- Steps that look up the same, and that go on alike with it. -/
theorem look_bind_congr {α β : Type} {f g : Progress → Except Cause α} {h h' : α → Step β}
    (hf : f p = g p) (hh : ∀ a, f p = .ok a → h a p = h' a p) :
    (look f >>= h) p = (look g >>= h') p := by
  simp only [bind, EStateM.bind, look, ← hf]
  cases hfound : f p with
  | error e => rfl
  | ok a => exact hh a hfound

/-- Both references are resolved, and to one object, if there is a table to look them up in. -/
def Matched (c : Changeset) (p : Progress) (ref ref' : ObjectRef) (table : Option TableKey) :
    Prop :=
  ∀ k, table = some k → ∃ x, c.object p.store p.created k ref = .ok x ∧
    c.object p.store p.created k ref' = .ok x

theorem Matched.selected (h : Matched c p ref ref' sel.selectedTable.toOption) (k : TableKey)
    (hk : sel.selectedTable = .ok k) :
    c.object p.store p.created k ref = c.object p.store p.created k ref' := by
  obtain ⟨x, hx, hx'⟩ := h k (by rw [hk]; rfl)
  rw [hx, hx']

theorem value_link_congr {d : ColumnDef} {target : Option TableKey}
    (h : Matched c p ref ref' target) :
    value c p d target (.link ref) = value c p d target (.link ref') := by
  cases target with
  | none => rfl
  | some k =>
    obtain ⟨x, hx, hx'⟩ := h k rfl
    simp only [value, Changeset.linkedObject_ok_iff.mpr hx, Changeset.linkedObject_ok_iff.mpr hx']

theorem selectField_congr (h : Matched c p ref ref' sel.selectedTable.toOption) :
    sel.selectField c p.store p.created ref field =
      sel.selectField c p.store p.created ref' field := by
  refine Reading.bind_congr_of_ok fun k hk => ?_
  simp only [h.selected k hk]

theorem selectLinkList_congr (h : Matched c p ref ref' sel.selectedTable.toOption) :
    sel.selectLinkList c p.store p.created ref field =
      sel.selectLinkList c p.store p.created ref' field := by
  refine Reading.bind_congr_of_ok fun k hk => ?_
  simp only [h.selected k hk]

theorem scalarField_congr (h : Matched c p ref ref' sel.selectedTable.toOption) :
    scalarField c sel p ref field = scalarField c sel p ref' field := by
  refine Reading.bind_congr_of_ok fun k hk => ?_
  simp only [h.selected k hk]

theorem eraseObject_congr (h : Matched c p ref ref' sel.selectedTable.toOption) :
    eraseObject c sel ref p = eraseObject c sel ref' p :=
  look_bind_congr rfl fun k hk => look_bind_congr (h.selected k hk) fun _ _ => rfl

/-- The table that the links of an addressed field lead to is where they are looked up. -/
theorem setLink_table?_eq {k : TableKey} {x : ObjectKey} {column : Column}
    {target : Option TableKey} (hplace : scalarField c sel p ref field = .ok (k, x, column))
    (htarget : linkTarget p.store column.definition = .ok target) :
    (Instruction.Slot.setLink ref field).table? c p.store sel = target := by
  simp only [scalarField, Reading.bind_ok_iff] at hplace
  obtain ⟨j, hsel, a, hcolumn, h⟩ := hplace
  have ha : j = k ∧ a = column := by
    cases hlist : a.definition.isList with
    | true => simp [hlist] at h
    | false =>
      simp only [hlist, Bool.false_eq_true, if_false, Reading.bind_ok_iff, Reading.pure_ok_iff,
        Prod.mk.injEq] at h
      obtain ⟨_, -, rfl, -, rfl⟩ := h
      exact ⟨rfl, rfl⟩
  obtain ⟨rfl, rfl⟩ := ha
  simp only [Instruction.Slot.table?, hsel, hcolumn, Except.toOption, Option.bind_eq_bind,
    Option.bind_some]
  unfold linkTarget at htarget
  cases hlink : a.definition.linkTarget with
  | none =>
    rw [hlink] at htarget
    exact Except.ok.inj htarget
  | some name =>
    rw [hlink] at htarget
    cases hfound : p.store.findTable name with
    | none => simp [hfound] at htarget
    | some j' =>
      simp only [hfound, Except.ok.injEq] at htarget
      rw [Option.bind_some, hfound, htarget]

/-- The selected list tells where links in it are looked up. -/
theorem listLink_table?_eq {l : Container} {column : Column}
    (hl : selectedList sel p = .ok (l, column)) :
    (do (← sel.container.toOption).target) = l.target := by
  obtain ⟨hcontainer, -⟩ := selectedList_ok_iff.mp hl
  simp only [hcontainer, Except.toOption, Option.bind_eq_bind, Option.bind_some]

/-- An instruction does not tell apart references that are resolved to one object. -/
theorem dispatch_fill_congr {slot : Instruction.Slot}
    (h : Matched c p ref ref' (slot.table? c p.store sel)) :
    dispatch c sel (slot.fill ref) p = dispatch c sel (slot.fill ref') p := by
  cases slot with
  | selectField field => exact look_bind_congr (selectField_congr h) fun _ _ => rfl
  | selectLinkList field => exact look_bind_congr (selectLinkList_congr h) fun _ _ => rfl
  | eraseObject => exact eraseObject_congr h
  | addInteger field delta => exact look_bind_congr (scalarField_congr h) fun _ _ => rfl
  | set field payload => exact look_bind_congr (scalarField_congr h) fun _ _ => rfl
  | setLink object field =>
    refine look_bind_congr rfl fun place hplace => look_bind_congr rfl fun target htarget => ?_
    obtain ⟨k, x, column⟩ := place
    rw [setLink_table?_eq hplace htarget] at h
    exact look_bind_congr (value_link_congr h) fun _ _ => rfl
  | listInsertLink index =>
    refine look_bind_congr rfl fun list hlist => ?_
    obtain ⟨l, column⟩ := list
    exact look_bind_congr (value_link_congr (listLink_table?_eq hlist ▸ h)) fun _ _ => rfl
  | listSetLink index =>
    refine look_bind_congr rfl fun list hlist => ?_
    obtain ⟨l, column⟩ := list
    exact look_bind_congr (value_link_congr (listLink_table?_eq hlist ▸ h)) fun _ _ => rfl

end Step

/-- The references denote one object of the table under a key, and that object is there. -/
def ObjectRef.SameObject (c : Changeset) (p : Progress) (k : TableKey) (ref ref' : ObjectRef) :
    Prop :=
  ∃ t x, p.store.tables[k]? = some t ∧ x ∈ t.objects ∧ ref.Denotes c p.created k t x ∧
    ref'.Denotes c p.created k t x

namespace Replay

/-- In every store that comes of an empty one, with any objects taken to have been created, a
reference is resolved to the object that it denotes, if that is there, and to no other. So in each
place of an instruction it can be replaced by a reference that denotes the same object in the table
where this place is looked up: the step succeeds or fails alike, with the same store. -/
theorem references_interchangeable (v : SchemaVersion) (turns : List Turn) (c : Changeset)
    (created : List Handle) :
    let p : Progress := ⟨Turn.afterAll (.new v) turns, created⟩
    (∀ (k : TableKey) (t : Table), p.store.tables[k]? = some t →
      ∀ (ref : ObjectRef) (x : ObjectKey),
      (c.object p.store p.created k ref = .ok x ↔
        x ∈ t.objects ∧ ref.Denotes c p.created k t x) ∧
      ∀ field, c.linkedObject p.store p.created field k ref = .ok x ↔
        x ∈ t.objects ∧ ref.Denotes c p.created k t x) ∧
    (∀ (i : Instruction) (ref : ObjectRef),
      ref ∈ i.references ↔ ∃ slot : Instruction.Slot, slot.fill ref = i) ∧
    ∀ (sel : Selection) (slot : Instruction.Slot) (ref ref' : ObjectRef),
      (∀ k, slot.table? c p.store sel = some k → ref.SameObject c p k ref') →
        Step.dispatch c sel (slot.fill ref) p = Step.dispatch c sel (slot.fill ref') p := by
  intro p
  have hs : p.store.Coherent := Turn.afterAll_coherent (.new v)
  refine ⟨fun k t ht ref x => ⟨Changeset.object_ok_iff hs ht, fun field => ?_⟩,
    fun i ref => Instruction.mem_references_iff, fun sel slot ref ref' h => ?_⟩
  · exact Changeset.linkedObject_ok_iff.trans (Changeset.object_ok_iff hs ht)
  · refine Step.dispatch_fill_congr fun k hk => ?_
    obtain ⟨t, x, ht, hx, hdenotes, hdenotes'⟩ := h k hk
    exact ⟨x, (Changeset.object_ok_iff hs ht).mpr ⟨hx, hdenotes⟩,
      (Changeset.object_ok_iff hs ht).mpr ⟨hx, hdenotes'⟩⟩

def teamCreated : List Handle := [⟨⟨1⟩, ⟨0⟩⟩, ⟨⟨0⟩, ⟨0⟩⟩]

theorem references_interchangeable_team :
    let p : Progress := ⟨Turn.afterAll (.new 1) (Store.teamOperations.map .operate), teamCreated⟩
    teamNames.object p.store p.created ⟨1⟩ (.primaryKey (.int 7)) = .ok ⟨0⟩ ∧
    (∃ t, p.store.tables[(⟨1⟩ : TableKey)]? = some t ∧
      (ObjectRef.primaryKey (.int 7)).Denotes teamNames p.created ⟨1⟩ t ⟨0⟩) ∧
    (ObjectRef.created 0).SameObject teamNames p ⟨1⟩ (.primaryKey (.int 7)) ∧
    (ObjectRef.created 1).SameObject teamNames p ⟨0⟩ (.key ⟨0⟩) ∧
    Step.dispatch teamNames (.table ⟨1⟩) (.set (.created 0) ⟨1⟩ (.link (.created 1))) p =
      Step.dispatch teamNames (.table ⟨1⟩) (.set (.primaryKey (.int 7)) ⟨1⟩ (.link (.key ⟨0⟩))) p ∧
    ∃ p', Step.dispatch teamNames (.table ⟨1⟩) (.set (.created 0) ⟨1⟩ (.link (.created 1))) p =
      .ok (.table ⟨1⟩, .fieldSet "people" ⟨0⟩ "team" (.link ⟨0⟩)) p' := by
  intro p
  obtain ⟨hresolved, -, hreplace⟩ :=
    references_interchangeable 1 (Store.teamOperations.map .operate) teamNames teamCreated
  obtain ⟨people, hpeople⟩ : ∃ t, p.store.tables[(⟨1⟩ : TableKey)]? = some t := ⟨_, rfl⟩
  obtain ⟨teams, hteams⟩ : ∃ t, p.store.tables[(⟨0⟩ : TableKey)]? = some t := ⟨_, rfl⟩
  have hkeyed := (hresolved ⟨1⟩ people hpeople (.primaryKey (.int 7)) ⟨0⟩).1
  obtain ⟨hmember, hdenotes⟩ := hkeyed.mp rfl
  obtain ⟨hteam, -⟩ := (hresolved ⟨0⟩ teams hteams (.key ⟨0⟩) ⟨0⟩).1.mp rfl
  have hobject : (ObjectRef.created 0).SameObject teamNames p ⟨1⟩ (.primaryKey (.int 7)) :=
    ⟨people, ⟨0⟩, hpeople, hmember, .created rfl, hdenotes⟩
  have hlink : (ObjectRef.created 1).SameObject teamNames p ⟨0⟩ (.key ⟨0⟩) :=
    ⟨teams, ⟨0⟩, hteams, hteam, .created rfl, .key⟩
  have hfirst := hreplace (.table ⟨1⟩) (.set ⟨1⟩ (.link (.created 1))) (.created 0)
    (.primaryKey (.int 7)) fun k hk => by cases hk; exact hobject
  have hsecond := hreplace (.table ⟨1⟩) (.setLink (.primaryKey (.int 7)) ⟨1⟩) (.created 1)
    (.key ⟨0⟩) fun k hk => by cases hk; exact hlink
  exact ⟨hkeyed.mpr ⟨hmember, hdenotes⟩, ⟨people, hpeople, hdenotes⟩, hobject, hlink,
    hfirst.trans hsecond, _, rfl⟩

end Replay
end ChangesetReplay
