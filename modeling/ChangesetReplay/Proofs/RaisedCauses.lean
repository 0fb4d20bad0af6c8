import ChangesetReplay.Proofs.SelectionValidity

/-! # What can be raised

The causes with which readings and calls of a store can fail, when what they are given is there: no
cause that speaks of keys as such, and on a list none that blames where it is. -/

namespace ChangesetReplay

namespace Cause

/-- Causes that speak of keys as such. No name and no reference of a changeset is one. -/
def isInternal : Cause → Bool
  | unknownTableKey .. | unknownColumnKey .. | unknownObjectKey .. | keyInUse ..
  | invalidSnapshot .. => true
  | _ => false

/-- Causes that blame an instruction for the kind or the place of what it addresses. -/
def isMisaddressed : Cause → Bool
  | notAList .. | notALinkList .. | notAScalar .. | tableNotFound .. | objectTableMismatch .. => true
  | _ => false

/-- What an instruction may fail with; `list` if it works on a list that was selected before. -/
structure Expected (list : Bool) (cause : Cause) : Prop where
  notInternal : cause.isInternal = false
  addressed : list = true → cause.isMisaddressed = false

theorem Expected.proper {list : Bool} {cause : Cause} (hi : cause.isInternal = false)
    (ha : cause.isMisaddressed = false) : Expected list cause := ⟨hi, fun _ => ha⟩

theorem Expected.outside {cause : Cause} (hi : cause.isInternal = false) : Expected false cause :=
  ⟨hi, fun h => by cases h⟩

end Cause

namespace Reading
variable {ε α β : Type} {P : ε → Prop}

def Raises (P : ε → Prop) (x : Except ε α) : Prop := ∀ e, x = .error e → P e

namespace Raises

theorem of_ok {x : Except ε α} {a : α} (h : x = .ok a) : Raises P x := by
  intro e he
  cases h.symm.trans he

theorem error {e : ε} (h : P e) : Raises P (.error e : Except ε α) := by
  intro e' he
  cases he
  exact h

theorem bind {x : Except ε α} {f : α → Except ε β} (hx : Raises P x)
    (hf : ∀ a, x = .ok a → Raises P (f a)) : Raises P (x >>= f) := by
  intro e he
  cases h : x with
  | error e' =>
    rw [h] at he
    cases he
    exact hx e h
  | ok a =>
    rw [h] at he
    exact hf a h e he

/-- What comes after a reading that is known to succeed. -/
theorem after {x : Except ε α} {f : α → Except ε β} {a : α} (h : x = .ok a)
    (hf : Raises P (f a)) : Raises P (x >>= f) := by
  refine .bind (.of_ok h) fun b hb => ?_
  cases h.symm.trans hb
  exact hf

theorem ite {c : Prop} [Decidable c] {x y : Except ε α} (hx : c → Raises P x)
    (hy : ¬c → Raises P y) : Raises P (if c then x else y) := by
  by_cases hc : c
  · rw [if_pos hc]
    exact hx hc
  · rw [if_neg hc]
    exact hy hc

/-- A guard that can fail, before what comes in any case. -/
theorem guard {c : Prop} [Decidable c] {x : Except ε Unit} {rest : Except ε α} (hx : Raises P x)
    (h : Raises P rest) : Raises P (if c then x >>= fun _ => rest else rest) :=
  .ite (fun _ => .bind hx fun _ _ => h) fun _ => h

theorem forM {f : α → Except ε Unit} {l : List α} (h : ∀ a, Raises P (f a)) :
    Raises P (l.forM f) := by
  induction l with
  | nil => exact .of_ok rfl
  | cons a l ih => exact .bind (h a) fun _ _ => ih

end Raises
end Reading

namespace ActionLaws
variable {ε σ α β : Type} {P : ε → Prop} {s : σ}

def RaisesAt (P : ε → Prop) (x : EStateM ε σ α) (s : σ) : Prop := ∀ e s', x s = .error e s' → P e

namespace RaisesAt

theorem of_ok {x : EStateM ε σ α} {a : α} {s' : σ} (h : x s = .ok a s') : RaisesAt P x s := by
  intro e t he
  cases h.symm.trans he

theorem throw {e : ε} (h : P e) : RaisesAt P (throw e : EStateM ε σ α) s := by
  intro e' t he
  cases he
  exact h

theorem bind {x : EStateM ε σ α} {f : α → EStateM ε σ β} (hx : RaisesAt P x s)
    (hf : ∀ a t, x s = .ok a t → RaisesAt P (f a) t) : RaisesAt P (x >>= f) s := by
  intro e s' he
  rcases bind_error he with he | ⟨a, t, ha, he⟩
  · exact hx e s' he
  · exact hf a t ha e s' he

theorem get_bind {f : σ → EStateM ε σ α} (h : RaisesAt P (f s) s) : RaisesAt P (get >>= f) s := h

theorem guard {c : Prop} [Decidable c] {x : EStateM ε σ α} {e : ε} (he : c → P e)
    (hx : ¬c → RaisesAt P x s) : RaisesAt P (if c then MonadExcept.throw e else x) s := by
  by_cases hc : c
  · rw [if_pos hc]
    exact .throw (he hc)
  · rw [if_neg hc]
    exact hx hc

theorem read {P : Cause → Prop} {s : Store} {f : Store → Except Cause α}
    (h : Reading.Raises P (f s)) : RaisesAt P (Store.Action.read f) s := by
  intro e s' he
  unfold Store.Action.read at he
  cases hf : f s with
  | ok a => simp [hf] at he
  | error e' =>
    simp only [hf, EStateM.Result.error.injEq] at he
    exact he.1 ▸ h e' hf

theorem read_bind {P : Cause → Prop} {s : Store} {f : Store → Except Cause α}
    {g : α → Store.Action β} (h : Reading.Raises P (f s))
    (hg : ∀ a, f s = .ok a → RaisesAt P (g a) s) : RaisesAt P (Store.Action.read f >>= g) s := by
  refine .bind (.read h) fun a t ha => ?_
  obtain ⟨hf, rfl⟩ := read_ok_iff.mp ha
  exact hg a hf

/-- What comes after a reading that is known to succeed. -/
theorem read_after {P : Cause → Prop} {s : Store} {f : Store → Except Cause α}
    {g : α → Store.Action β} {a : α} (h : f s = .ok a) (hg : RaisesAt P (g a) s) :
    RaisesAt P (Store.Action.read f >>= g) s := by
  refine .read_bind (.of_ok h) fun b hb => ?_
  cases h.symm.trans hb
  exact hg

end RaisesAt
end ActionLaws

open Reading ActionLaws
open Cause (Expected)

section Definitions
variable {list : Bool} {d : ColumnDef}

theorem ColumnDef.validate_raises : Raises (Expected list) d.validate := by
  obtain ⟨name, type, nullable, isList, target⟩ := d
  cases target with
  | none =>
    cases type with
    | link => exact .error (.proper rfl rfl)
    | _ => exact .of_ok rfl
  | some target =>
    cases type with
    | link =>
      exact .ite (fun _ => .error (.proper rfl rfl)) fun _ =>
        .ite (fun _ => .error (.proper rfl rfl)) fun _ => .of_ok rfl
    | _ => exact .error (.proper rfl rfl)

theorem ColumnDef.checkElement_raises {v : Value} : Raises (Expected list) (d.checkElement v) := by
  cases v with
  | null => exact .ite (fun _ => .of_ok rfl) fun _ => .error (.proper rfl rfl)
  | timestamp t =>
    refine .ite (fun _ => ?_) fun _ => .error (.proper rfl rfl)
    exact .ite (fun _ => .of_ok rfl) fun _ => .error (.proper rfl rfl)
  | _ => exact .ite (fun _ => .of_ok rfl) fun _ => .error (.proper rfl rfl)

theorem KeyDef.check_raises {d : KeyDef} {table : String} {key : Option PrimaryKey} :
    Raises (Expected list) (d.check table key) := by
  obtain ⟨column, type, nullable⟩ := d
  cases key with
  | none => cases type <;> exact .error (.proper rfl rfl)
  | some key =>
    cases key with
    | null =>
      cases type <;> exact .ite (fun _ => .of_ok rfl) fun _ => .error (.proper rfl rfl)
    | int n =>
      cases type with
      | int => exact .of_ok rfl
      | string => exact .error (.proper rfl rfl)
    | string str =>
      cases type with
      | int => exact .error (.proper rfl rfl)
      | string => exact .of_ok rfl

end Definitions

namespace Sequence
variable {list : Bool} {α : Type} {a : α} {i j : Nat} {l : List α}

theorem at?_raises : Raises (Expected list) (at? l i) := by
  unfold at?
  cases l[i]? with
  | some a => exact .of_ok rfl
  | none => exact .error (.proper rfl rfl)

theorem insert_raises : Raises (Expected list) (insert i a l) :=
  .ite (fun _ => .of_ok rfl) fun _ => .error (.proper rfl rfl)

theorem set_raises : Raises (Expected list) (set i a l) :=
  .ite (fun _ => .of_ok rfl) fun _ => .error (.proper rfl rfl)

theorem erase_raises : Raises (Expected list) (erase i l) :=
  .ite (fun _ => .of_ok rfl) fun _ => .error (.proper rfl rfl)

theorem move_raises : Raises (Expected list) (move i j l) :=
  .bind at?_raises fun _ _ => .ite (fun _ => .of_ok rfl) fun _ => .error (.proper rfl rfl)

theorem swap_raises : Raises (Expected list) (swap i j l) :=
  .bind at?_raises fun _ _ => .bind at?_raises fun _ _ => .of_ok rfl

end Sequence

namespace Store
variable {list : Bool} {s : Store} {k : TableKey} {t : Table} {d : ColumnDef} {f : FieldRef}
variable {v : Value}

/-- An address leads to a column and an object that are there. -/
structure FieldAt (s : Store) (f : FieldRef) (t : Table) (d : ColumnDef) : Prop where
  table : s.tables[f.table]? = some t
  column : t.columnDef f.column = .ok d
  object : f.object ∈ t.objects

/-- Then there is a cell, of the shape that the column asks for. -/
theorem FieldAt.cell_ok (h : s.FieldAt f t d) (hs : s.Sound) :
    ∃ c, t.cell f.object f.column = .ok c ∧ c.isList = d.isList := by
  obtain ⟨o, ho⟩ := FiniteMap.mem_iff_exists.mp h.object
  have hcomplete := (hs.table _ t h.table).object _ o ho
  obtain ⟨c, hc, hfits⟩ := hcomplete.cell _ (Table.columnDef_ok h.column)
  exact ⟨c, Table.cell_ok_iff.mpr ⟨⟨d, h.column⟩, o, ho, hc⟩, hfits.shape⟩

theorem FieldAt.items_ok (h : s.FieldAt f t d) (hs : s.Sound) (hlist : d.isList = true) :
    ∃ l, s.items f = .ok l := by
  obtain ⟨c, hc, hshape⟩ := h.cell_ok hs
  cases c with
  | scalar v => cases hshape.trans hlist
  | list l =>
    obtain ⟨d', o, hat⟩ := (cellAt_iff h.table).mp hc
    exact ⟨l, items_ok_iff.mpr ⟨t, d', o, hat⟩⟩

theorem containsObject_ok (ht : s.tables[k]? = some t) (j : ObjectKey) :
    ∃ b, s.containsObject k j = .ok b := ⟨_, containsObject_ok_iff.mpr ⟨t, ht, rfl⟩⟩

/-- A column of a sound store links to a table that is there. -/
theorem Sound.hasTarget (hs : s.Sound) (h : s.FieldAt f t d) {target : String}
    (hlink : d.linkTarget = some target) : s.HasTable target :=
  hs.target _ t h.table _ (Table.columnDef_ok h.column) target hlink

theorem checkValue_raises (hs : s.Named)
    (htarget : ∀ target, d.linkTarget = some target → s.HasTable target) :
    Raises (Expected list) (s.checkValue d v) := by
  refine .bind ColumnDef.checkElement_raises fun _ _ => ?_
  cases v with
  | link object =>
    cases hlink : d.linkTarget with
    | none => exact .of_ok rfl
    | some target =>
      obtain ⟨k, t, ht, hname⟩ := htarget target hlink
      have hfound : s.findTable target = some k := hs.findTable_eq_some_iff.mpr ⟨t, ht, hname⟩
      obtain ⟨b, hb⟩ := containsObject_ok ht object
      simp only [hfound]
      exact .after hb (.ite (fun _ => .of_ok rfl) fun _ => .error (.proper rfl rfl))
  | _ => exact .of_ok rfl

theorem writableScalar_raises (h : s.FieldAt f t d) :
    Raises (Expected false) (s.writableScalar f) := by
  refine .after (table_ok_iff.mpr h.table) (.after h.column ?_)
  refine .ite (fun _ => .error (.outside rfl)) fun _ => ?_
  exact .ite (fun _ => .error (.outside rfl)) fun _ => .of_ok rfl

theorem setScalar_raises (hs : s.Sound) (h : s.FieldAt f t d) :
    RaisesAt (Expected false) (setScalar f v) s := by
  refine .read_bind (writableScalar_raises h) fun d' hd' => ?_
  obtain ⟨t', ht', hdef, -⟩ := writableScalar_ok_iff.mp hd'
  cases h.table.symm.trans ht'
  cases h.column.symm.trans hdef
  refine .read_bind (checkValue_raises hs.named fun _ => hs.hasTarget h) fun _ _ => ?_
  obtain ⟨c, hc, -⟩ := h.cell_ok hs
  exact .read_after ((table_bind_of_tables h.table).trans hc) (.of_ok rfl)

theorem addInt_raises (hs : s.Sound) (h : s.FieldAt f t d) (delta : Int64) :
    RaisesAt (Expected false) (addInt f delta) s := by
  refine .read_bind (writableScalar_raises h) fun d' _ => ?_
  obtain ⟨c, hc, -⟩ := h.cell_ok hs
  refine .read_after ((table_bind_of_tables h.table).trans hc) ?_
  cases c with
  | list l => exact .throw (.outside rfl)
  | scalar v =>
    cases v with
    | int n => exact .of_ok rfl
    | _ => exact .throw (.outside rfl)

theorem editList_raises (hs : s.Sound) (h : s.FieldAt f t d) (hlist : d.isList = true)
    {edit : List Value → Except Cause (List Value)} (hedit : ∀ l, Raises (Expected list) (edit l)) :
    RaisesAt (Expected list) (editList f edit) s := by
  obtain ⟨l, hl⟩ := h.items_ok hs hlist
  refine .read_bind (.of_ok hl) fun l _ => .read_bind (hedit l) fun _ _ => ?_
  exact .of_ok rfl

theorem checkedEdit_raises (hs : s.Sound) (h : s.FieldAt f t d) (hlist : d.isList = true)
    {edit : List Value → Except Cause (List Value)} (hedit : ∀ l, Raises (Expected list) (edit l)) :
    RaisesAt (Expected list) (checkElement f v >>= fun _ => editList f edit) s := by
  have hcheck : RaisesAt (Expected list) (checkElement f v) s := by
    refine .read_after ((table_bind_of_tables h.table).trans h.column) ?_
    exact .read (checkValue_raises hs.named fun _ => hs.hasTarget h)
  refine .bind hcheck fun _ s' hs' => ?_
  obtain ⟨-, rfl⟩ := checkElement_ok_iff.mp hs'
  exact editList_raises hs h hlist hedit

theorem addTable_raises (hs : s.Sound) (name : String) (keyDef : Option KeyDef) :
    RaisesAt (Expected false) (addTable name keyDef) s := by
  simp only [addTable, ActionLaws.throw_bind]
  refine .get_bind (.guard (fun _ => .outside rfl) fun _ => .guard (fun hused => ?_) fun _ => ?_)
  · -- the next key is not in use
    obtain ⟨t, ht⟩ := FiniteMap.mem_iff_exists.mp (Std.ExtTreeMap.mem_iff_contains.mpr hused)
    exact absurd (hs.key_lt _ t ht) (UInt32.lt_irrefl _)
  · exact .read_after (Table.create_eq _ _ _) (.of_ok rfl)

theorem eraseTable_raises (ht : s.tables[k]? = some t) :
    RaisesAt (Expected false) (eraseTable k) s := by
  have hname := tableName_of_tables ht
  refine .read_bind (.after hname (.of_ok rfl)) fun origins _ => ?_
  cases origins with
  | nil => exact .of_ok rfl
  | cons origin rest => exact .read_after hname (.throw (.outside rfl))

theorem addColumn_raises (hs : s.Sound) (ht : s.tables[k]? = some t) (d : ColumnDef) :
    RaisesAt (Expected false) (addColumn k d) s := by
  have hrest : RaisesAt (Expected false) (do
      let t ← Action.read (·.table k)
      if (t.column? d.name).isSome then throw (.columnExists t.name d.name)
      let r ← Action.read fun _ => t.pushColumn d
      modify (·.putTable k r.2)
      return r.1 : Action ColumnKey) s := by
    simp only [ActionLaws.throw_bind]
    refine .read_after (table_ok_iff.mpr ht) ?_
    have hfree : ∀ c ∈ t.columns, c.key ≠ ⟨t.nextColumn⟩ := by
      intro c hc heq
      have hlt := (hs.table k t ht).columns.key_lt c hc
      rw [heq] at hlt
      exact UInt32.lt_irrefl _ hlt
    have hpush : t.pushColumn d = .ok (⟨t.nextColumn⟩, t.withColumn d) :=
      Table.pushColumn_ok_iff.mpr ⟨hfree, rfl, rfl⟩
    exact .guard (fun _ => .outside rfl) fun _ => .read_after hpush (.of_ok rfl)
  simp only [addColumn, ActionLaws.throw_bind] at hrest ⊢
  refine .read_bind ColumnDef.validate_raises fun _ _ => ?_
  cases d.linkTarget with
  | none => exact hrest
  | some target => exact .get_bind (.guard (fun _ => .outside rfl) fun _ => hrest)

theorem eraseColumn_raises {c : ColumnKey} (ht : s.tables[k]? = some t)
    (hd : t.columnDef c = .ok d) : RaisesAt (Expected false) (eraseColumn k c) s := by
  simp only [eraseColumn, ActionLaws.throw_bind]
  refine .read_after (table_ok_iff.mpr ht) ?_
  exact .read_after hd (.guard (fun _ => .outside rfl) fun _ => .of_ok rfl)

theorem checkNewKey_raises {key : Option PrimaryKey} :
    Raises (Expected false) (checkNewKey t key) := by
  unfold checkNewKey
  cases t.keyDef with
  | none =>
    cases key with
    | none => exact .of_ok rfl
    | some p => exact .error (.outside rfl)
  | some d =>
    refine .bind KeyDef.check_raises fun _ _ => ?_
    cases key with
    | none => exact .of_ok rfl
    | some p => exact .ite (fun _ => .error (.outside rfl)) fun _ => .of_ok rfl

theorem createObject_raises (hs : s.Sound) (ht : s.tables[k]? = some t) (key : Option PrimaryKey) :
    RaisesAt (Expected false) (createObject k key) s := by
  simp only [createObject, ActionLaws.throw_bind]
  refine .read_after (table_ok_iff.mpr ht) ?_
  refine .read_bind checkNewKey_raises fun _ _ => .guard (fun hused => ?_) fun _ => ?_
  · -- the next key is not in use
    obtain ⟨o, ho⟩ := FiniteMap.mem_iff_exists.mp (Std.ExtTreeMap.mem_iff_contains.mpr hused)
    cases ho.symm.trans (hs.table k t ht).objects_next
  · exact .of_ok rfl

theorem eraseObject_raises {j : ObjectKey} (ht : s.tables[k]? = some t) (hj : j ∈ t.objects) :
    RaisesAt (Expected false) (eraseObject k j) s := by
  simp only [eraseObject, ActionLaws.throw_bind]
  refine .read_after (table_ok_iff.mpr ht) ?_
  refine .guard (fun hnot => ?_) fun _ => .of_ok rfl
  exact absurd (Std.ExtTreeMap.mem_iff_contains.mp hj) hnot

end Store

def Cause.Refuses (e : Cause) : Prop := ∃ reason, e = .invalidSnapshot reason

namespace Table
variable {t : Table}

theorem inconsistent_raises {α : Type} {what : String} :
    Raises Cause.Refuses (t.inconsistent what : Except Cause α) := .error ⟨_, rfl⟩

theorem checkColumns_raises {before columns : List Column} :
    Raises Cause.Refuses (t.checkColumns before columns) := by
  induction columns generalizing before with
  | nil => exact .of_ok rfl
  | cons c rest ih =>
    refine .guard inconsistent_raises <| .guard inconsistent_raises ?_
    cases c.definition.validate with
    | error e => exact inconsistent_raises
    | ok u => exact ih

theorem checkKeyColumn_raises : Raises Cause.Refuses t.checkKeyColumn := by
  unfold checkKeyColumn
  cases t.keyDef with
  | none => exact .of_ok rfl
  | some d => exact .ite (fun _ => .of_ok rfl) fun _ => inconsistent_raises

theorem checkObjectKey_raises {k : ObjectKey} {o : Object} :
    Raises Cause.Refuses (t.checkObjectKey k o) := by
  unfold checkObjectKey
  cases t.keyDef with
  | none => exact .ite (fun _ => inconsistent_raises) fun _ => .of_ok rfl
  | some d =>
    cases hd : d.check t.name o.primaryKey with
    | error e =>
      simp only [hd]
      exact inconsistent_raises
    | ok u =>
      simp only [hd]
      exact .of_ok rfl

theorem checkCell_raises {k : ObjectKey} {o : Object} {c : Column} :
    Raises Cause.Refuses (t.checkCell k o c) := by
  unfold checkCell
  cases cellValues? o c with
  | none => exact inconsistent_raises
  | some values =>
    refine .forM fun v => ?_
    cases c.definition.checkElement v with
    | error e => exact inconsistent_raises
    | ok u => exact .of_ok rfl

theorem checkObjects_raises {before : List PrimaryKey} {objects : List (ObjectKey × Object)} :
    Raises Cause.Refuses (t.checkObjects before objects) := by
  induction objects generalizing before with
  | nil => exact .of_ok rfl
  | cons e rest ih =>
    obtain ⟨k, o⟩ := e
    have hfields : Raises Cause.Refuses (do
        if o.fields.size ≠ t.columns.length then
          t.inconsistent s!"{k.text} has {o.fields.size} fields"
        t.columns.forM (t.checkCell k o)
        checkObjects t (o.primaryKey.toList ++ before) rest) :=
      .guard inconsistent_raises <| .bind (.forM fun _ => checkCell_raises) fun _ _ => ih
    refine .guard inconsistent_raises <| .bind checkObjectKey_raises fun _ _ => ?_
    revert hfields
    cases o.primaryKey with
    | none => exact id
    | some p => exact .guard inconsistent_raises

theorem checkConsistency_raises : Raises Cause.Refuses t.checkConsistency :=
  .bind checkColumns_raises fun _ _ => .bind checkKeyColumn_raises fun _ _ => checkObjects_raises

end Table

namespace Snapshot
variable {x : Snapshot}

theorem checkTarget_raises {t : Table} {c : Column} : Raises Cause.Refuses (x.checkTarget t c) := by
  unfold checkTarget
  cases c.definition.linkTarget with
  | none => exact .of_ok rfl
  | some target => exact .ite (fun _ => .of_ok rfl) fun _ => .error ⟨_, rfl⟩

theorem checkTables_raises {before tables : List Table} :
    Raises Cause.Refuses (x.checkTables before tables) := by
  induction tables generalizing before with
  | nil => exact .of_ok rfl
  | cons t rest ih =>
    have htargets : Raises Cause.Refuses (do
        t.columns.forM (x.checkTarget t)
        checkTables x (t :: before) rest) :=
      .bind (.forM fun _ => checkTarget_raises) fun _ _ => ih
    exact .guard (.error ⟨_, rfl⟩) <| .guard (.error ⟨_, rfl⟩) <|
      .bind Table.checkConsistency_raises fun _ _ => htargets

/-- A snapshot is refused only as invalid. -/
theorem validate_raises : Raises Cause.Refuses x.validate :=
  .guard (.error ⟨_, rfl⟩) checkTables_raises

end Snapshot
end ChangesetReplay
