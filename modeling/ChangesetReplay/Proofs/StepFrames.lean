import ChangesetReplay.Proofs.CellWrites
import ChangesetReplay.Proofs.ErasedObjects
import ChangesetReplay.Proofs.SelectionValidity

/-! # Frames of steps

What a successful step leaves alone, in whatever store and under whatever selection it is taken. One
that selects changes neither the store nor the list of created objects. Any other keeps the
selection, unless that names what is erased, and changes one table; only the erasure of an object
reaches further, to the links that lead to its table. -/

namespace ChangesetReplay

namespace Store
variable {α : Type} {s s' : Store} {k : TableKey} {t : Table} {f : FieldRef} {cell : Cell}

/-- The store `s'` is at the schema version of `s` and has the same tables, but for the one under
the key `k`. -/
structure SameBut (k : TableKey) (s s' : Store) : Prop where
  schemaVersion : s'.schemaVersion = s.schemaVersion
  otherTable : ∀ j : TableKey, j ≠ k → s'.tables[j]? = s.tables[j]?

theorem sameBut_putTable : SameBut k s (s.putTable k t) where
  schemaVersion := rfl
  otherTable := (FiniteMap.insert_eq_iff.mp rfl).2

theorem sameBut_putCell : SameBut f.table s (s.putCell f cell) where
  schemaVersion := rfl
  otherTable j hj := by
    simp [putCell, Std.ExtTreeMap.getElem?_modify, Std.LawfulEqCmp.compare_eq_iff_eq, hj.symm]

def ActsOn (k : TableKey) (act : Action α) : Prop := ∀ s a s', act s = .ok a s' → SameBut k s s'

theorem addTable_sameBut {name : String} {keyDef : Option KeyDef}
    (h : addTable name keyDef s = .ok k s') : SameBut k s s' := by
  obtain ⟨-, -, rfl, rfl⟩ := addTable_ok_iff.mp h
  exact ⟨rfl, sameBut_putTable.otherTable⟩

theorem eraseTable_actsOn (k : TableKey) : ActsOn k (eraseTable k) := by
  intro s u s' h
  obtain ⟨-, rfl⟩ := eraseTable_ok_iff.mp h
  refine ⟨rfl, fun j hj => Option.ext fun v => ?_⟩
  rw [FiniteMap.erase_eq_some_iff]
  exact and_iff_right hj.symm

theorem addColumn_actsOn (k : TableKey) (d : ColumnDef) : ActsOn k (addColumn k d) := by
  intro s c s' h
  obtain ⟨-, -, t, -, -, -, -, rfl⟩ := addColumn_ok_iff.mp h
  exact sameBut_putTable

theorem eraseColumn_actsOn (k : TableKey) (c : ColumnKey) : ActsOn k (eraseColumn k c) := by
  intro s u s' h
  obtain ⟨t, _, -, -, -, rfl⟩ := eraseColumn_ok_iff.mp h
  exact sameBut_putTable

theorem createObject_actsOn (k : TableKey) (key : Option PrimaryKey) :
    ActsOn k (createObject k key) := by
  intro s o s' h
  obtain ⟨t, -, -, -, -, rfl⟩ := createObject_ok_iff.mp h
  exact sameBut_putTable

theorem setScalar_actsOn (f : FieldRef) (v : Value) : ActsOn f.table (setScalar f v) := by
  intro s u s' h
  obtain ⟨_, _, _, _, -, -, -, -, rfl⟩ := setScalar_ok_iff.mp h
  exact sameBut_putCell

theorem addInt_actsOn (f : FieldRef) (delta : Int64) : ActsOn f.table (addInt f delta) := by
  intro s sum s' h
  obtain ⟨_, _, _, _, -, -, -, -, rfl⟩ := addInt_ok_iff.mp h
  exact sameBut_putCell

theorem editList_actsOn (f : FieldRef) (edit : List Value → Except Cause (List Value)) :
    ActsOn f.table (editList f edit) := by
  intro s u s' h
  obtain ⟨_, _, -, -, rfl⟩ := editList_ok_iff.mp h
  exact sameBut_putCell

theorem checkedEdit_actsOn (f : FieldRef) (v : Value)
    (edit : List Value → Except Cause (List Value)) :
    ActsOn f.table (checkElement f v >>= fun _ => editList f edit) := by
  intro s u s' h
  exact editList_actsOn f edit s u s' (checkedEdit_ok_iff.mp h).2

end Store

/-- What a table becomes when `x` is erased, an object of another table of the name `target`: in the
columns that link there the links to it are gone, and all else is the same. -/
structure Table.ForgetsLinks (target : String) (x : ObjectKey) (t u : Table) : Prop where
  rest : u = { t with objects := u.objects }
  object : ∀ y : ObjectKey, Option.Rel (Object.Forgets (· ∈ t.linkColumns target) x)
    t.objects[y]? u.objects[y]?

theorem Table.forgetsLinks_dropLinks (target : String) (x : ObjectKey) (t : Table) :
    t.ForgetsLinks target x (t.dropLinks target x) where
  rest := rfl
  object _ := (rel_iff_map fun o _ => Object.forgets_iff (fun _ => Iff.rfl) o).mpr
    objects_dropLinks.symm

/-- An erased object is forgotten in the tables other than its own. -/
theorem Store.forgetsLinks_of_eraseObject {s s' : Store} {k : TableKey} {x : ObjectKey} {u : Unit}
    (h : eraseObject k x s = .ok u s') : s'.schemaVersion = s.schemaVersion ∧
      ∃ t, s.tables[k]? = some t ∧ ∀ j : TableKey, j ≠ k →
        Option.Rel (Table.ForgetsLinks t.name x) s.tables[j]? s'.tables[j]? := by
  obtain ⟨t, ht, -, rfl⟩ := eraseObject_ok_iff.mp h
  refine ⟨rfl, t, ht, fun j hj => ?_⟩
  rw [tables_dropLinks, sameBut_putTable.otherTable j hj]
  cases s.tables[j]? with
  | none => exact .none
  | some v => exact .some (v.forgetsLinks_dropLinks t.name x)

namespace Selection
variable {sel sel' : Selection}

/-- The selection after an instruction that does not select: it is the same, or it went stale with
what was erased, of a table as a whole and otherwise within the selected table. -/
inductive Follows (sel : Selection) : InstructionKind → Selection → Prop where
  | same (kind : InstructionKind) : Follows sel kind sel
  | tableErased : Follows sel .eraseTable .stale
  | columnErased {k : TableKey} (selected : sel.selectedTable = .ok k) :
      Follows sel .eraseColumn (.staleContainer k)
  | objectErased {k : TableKey} (selected : sel.selectedTable = .ok k) :
      Follows sel .eraseObject (.staleContainer k)

theorem follows_afterTableErased (k : TableKey) :
    sel.Follows .eraseTable (sel.afterTableErased k) := by
  unfold afterTableErased
  cases sel.selectedTable with
  | error e => exact .same _
  | ok t =>
    by_cases h : t = k
    · simpa [h] using Follows.tableErased
    · simpa [h] using Follows.same _

theorem follows_afterColumnErased (k : TableKey) (c : ColumnKey) :
    sel.Follows .eraseColumn (sel.afterColumnErased k c) := by
  unfold afterColumnErased
  cases hl : sel.container with
  | error e => exact .same _
  | ok l =>
    by_cases h : l.table = k ∧ l.column = c
    · simpa [h] using Follows.columnErased (h.1 ▸ selectedTable_of_container hl)
    · simpa [h] using Follows.same _

theorem follows_afterObjectErased (k : TableKey) (x : ObjectKey) :
    sel.Follows .eraseObject (sel.afterObjectErased k x) := by
  unfold afterObjectErased
  cases hl : sel.container with
  | error e => exact .same _
  | ok l =>
    by_cases h : l.table = k ∧ l.object = x
    · simpa [h] using Follows.objectErased (h.1 ▸ selectedTable_of_container hl)
    · simpa [h] using Follows.same _

end Selection

namespace Instruction
variable {i : Instruction}

def isLocal : Instruction → Bool
  | createObject _ | eraseObject _ => false
  | i => !i.isSelection

theorem of_isLocal (h : i.isLocal = true) :
    i.isSelection = false ∧ i.kind ≠ .createObject ∧ i.kind ≠ .eraseObject := by
  cases i with
  | createObject key => cases h
  | eraseObject ref => cases h
  | selectTable table => cases h
  | selectField ref field => cases h
  | selectLinkList ref field => cases h
  | _ => exact ⟨rfl, (by rintro ⟨⟩), (by rintro ⟨⟩)⟩

end Instruction

namespace Step
variable {c : Changeset} {sel sel' : Selection} {p p' : Progress} {i : Instruction} {e : Effect}

/-- What a successful step may change of the selection, of the store, and of the list of created
objects. -/
structure Frame (sel : Selection) (p : Progress) (i : Instruction) (sel' : Selection) (e : Effect)
    (p' : Progress) : Prop where
  /-- An instruction selects exactly if its effect is no mutation. -/
  selects_iff : i.isSelection = true ↔ e.isMutation = false
  selecting : i.isSelection = true → p' = p
  selection : i.isSelection = false → sel.Follows i.kind sel'
  grown : i.kind = .createObject → ∃ x, p'.created = p.created ++ [x]
  created : i.kind ≠ .createObject → p'.created = p.created
  schemaVersion : p'.store.schemaVersion = p.store.schemaVersion
  /-- At most one table differs. -/
  table : i.kind ≠ .eraseObject → ∃ k, ∀ j : TableKey, j ≠ k →
    p'.store.tables[j]? = p.store.tables[j]?
  /-- The selected table differs, and the links that lead to it. -/
  erased : i.kind = .eraseObject → ∃ k t x, sel.selectedTable = .ok k ∧
    p.store.tables[k]? = some t ∧ ∀ j : TableKey, j ≠ k →
      Option.Rel (Table.ForgetsLinks t.name x) p.store.tables[j]? p'.store.tables[j]?

theorem Frame.of_selection (hi : i.isSelection = true) (he : e.isMutation = false) :
    Frame sel p i sel' e p := by
  have hkind : i.kind ≠ .createObject ∧ i.kind ≠ .eraseObject := by
    cases i with
    | selectTable table => exact ⟨(by rintro ⟨⟩), (by rintro ⟨⟩)⟩
    | selectField ref field => exact ⟨(by rintro ⟨⟩), (by rintro ⟨⟩)⟩
    | selectLinkList ref field => exact ⟨(by rintro ⟨⟩), (by rintro ⟨⟩)⟩
    | _ => cases hi
  exact
    { selects_iff := iff_of_true hi he
      selecting := fun _ => rfl
      selection := fun h => absurd hi (Bool.eq_false_iff.mp h)
      grown := fun h => absurd h hkind.1
      created := fun _ => rfl
      schemaVersion := rfl
      table := fun _ => ⟨⟨0⟩, fun _ _ => rfl⟩
      erased := fun h => absurd h hkind.2 }

/-- A step of a local instruction, once it is known on which table it acts. -/
theorem Frame.of_sameBut {k : TableKey} {s : Store} (hi : i.isLocal = true)
    (he : e.isMutation = true) (hsel : sel.Follows i.kind sel') (h : Store.SameBut k p.store s) :
    Frame sel p i sel' e { p with store := s } := by
  obtain ⟨hmutates, hcreate, herase⟩ := Instruction.of_isLocal hi
  exact
    { selects_iff := iff_of_false (Bool.eq_false_iff.mp hmutates) fun hfalse =>
        absurd he (Bool.eq_false_iff.mp hfalse)
      selecting := fun hs => absurd hs (Bool.eq_false_iff.mp hmutates)
      selection := fun _ => hsel
      grown := fun hk => absurd hk hcreate
      created := fun _ => rfl
      schemaVersion := h.schemaVersion
      table := fun _ => ⟨k, h.otherTable⟩
      erased := fun hk => absurd hk herase }

theorem Frame.of_actsOn {α : Type} {act : Store.Action α} {a : α} {k : TableKey} {s : Store}
    (hacts : Store.ActsOn k act) (done : act p.store = .ok a s) (hi : i.isLocal = true)
    (he : e.isMutation = true) (hsel : sel.Follows i.kind sel') :
    Frame sel p i sel' e { p with store := s } :=
  .of_sameBut hi he hsel (hacts p.store a s done)

/-- A step keeps to its frame. -/
theorem Outcome.frame (h : Outcome c sel p i sel' e p') : Frame sel p i sel' e p' := by
  cases h with
  | addTable named keyed done =>
    exact .of_sameBut rfl rfl (.same _) (Store.addTable_sameBut done)
  | @eraseTable id t name s found label done =>
    exact .of_actsOn (Store.eraseTable_actsOn t) done rfl rfl
      (Selection.follows_afterTableErased t)
  | addColumn defined found label done =>
    exact .of_actsOn (Store.addColumn_actsOn _ _) done rfl rfl (.same _)
  | @eraseColumn id field t column name s found member label done =>
    exact .of_actsOn (Store.eraseColumn_actsOn _ _) done rfl rfl
      (Selection.follows_afterColumnErased t column.key)
  | selectTable selected table label => exact .of_selection rfl rfl
  | selectField selected list label member => exact .of_selection rfl rfl
  | selectLinkList selected list linked label member targetLabel => exact .of_selection rfl rfl
  | @createObject key t key' o name s selected keyed label done =>
    have hsame := Store.createObject_actsOn t key' _ _ _ done
    exact
      { selects_iff := ⟨(by rintro ⟨⟩), (by rintro ⟨⟩)⟩
        selecting := fun h => by cases h
        selection := fun _ => .same _
        grown := fun _ => ⟨⟨t, o⟩, rfl⟩
        created := fun h => absurd rfl h
        schemaVersion := hsame.schemaVersion
        table := fun _ => ⟨t, hsame.otherTable⟩
        erased := fun h => by cases h }
  | @eraseObject ref t o name s selected found label done =>
    obtain ⟨hversion, u, hu, hforgets⟩ := Store.forgetsLinks_of_eraseObject done
    exact
      { selects_iff := ⟨(by rintro ⟨⟩), (by rintro ⟨⟩)⟩
        selecting := fun h => by cases h
        selection := fun _ => Selection.follows_afterObjectErased t o
        grown := fun h => by cases h
        created := fun _ => rfl
        schemaVersion := hversion
        table := fun h => absurd rfl h
        erased := fun _ => ⟨t, u, o, selected, hu, hforgets⟩ }
  | set place linked resolved label done =>
    exact .of_actsOn (Store.setScalar_actsOn _ _) done rfl rfl (.same _)
  | addInteger place type label done =>
    exact .of_actsOn (Store.addInt_actsOn _ _) done rfl rfl (.same _)
  | listInsert list resolved label done =>
    exact .of_actsOn (Store.checkedEdit_actsOn _ _ _) done rfl rfl (.same _)
  | listSet list resolved label done =>
    exact .of_actsOn (Store.checkedEdit_actsOn _ _ _) done rfl rfl (.same _)
  | listErase list label done =>
    exact .of_actsOn (Store.editList_actsOn _ _) done rfl rfl (.same _)
  | listMove list label done =>
    exact .of_actsOn (Store.editList_actsOn _ _) done rfl rfl (.same _)
  | listSwap list label done =>
    exact .of_actsOn (Store.editList_actsOn _ _) done rfl rfl (.same _)
  | listClear list length label done =>
    exact .of_actsOn (Store.editList_actsOn _ _) done rfl rfl (.same _)

/-- Selecting and changing are apart: each successful step keeps to its frame, in every store, under
every selection, and whatever has been created before. -/
theorem dispatch_frame (c : Changeset) (sel : Selection) (i : Instruction) (p : Progress)
    (sel' : Selection) (e : Effect) (p' : Progress) (h : dispatch c sel i p = .ok (sel', e) p') :
    Frame sel p i sel' e p' :=
  (dispatch_outcome h).frame

/-- A team is erased, and the link to it is gone from the table of the people. -/
theorem dispatch_frame_team :
    let p : Progress := ⟨Store.teamStore, [⟨⟨0⟩, ⟨0⟩⟩]⟩
    ∃ p', dispatch (.new 1) (.table ⟨0⟩) (.eraseObject (.created 0)) p =
        .ok (.table ⟨0⟩, .objectErased "teams" ⟨0⟩) p' ∧
      Frame (.table ⟨0⟩) p (.eraseObject (.created 0)) (.table ⟨0⟩) (.objectErased "teams" ⟨0⟩) p' ∧
      p.store.scalar ⟨⟨1⟩, ⟨0⟩, ⟨1⟩⟩ = .ok (.link ⟨0⟩) ∧
      p'.store.scalar ⟨⟨1⟩, ⟨0⟩, ⟨1⟩⟩ = .ok .null := by
  intro p
  obtain ⟨p', hstep, hafter⟩ : ∃ p', dispatch (.new 1) (.table ⟨0⟩) (.eraseObject (.created 0)) p =
      .ok (.table ⟨0⟩, .objectErased "teams" ⟨0⟩) p' ∧
        p'.store.scalar ⟨⟨1⟩, ⟨0⟩, ⟨1⟩⟩ = .ok .null := ⟨_, rfl, by rfl⟩
  exact ⟨p', hstep, dispatch_frame _ _ _ _ _ _ _ hstep, by rfl, hafter⟩

end Step
end ChangesetReplay
