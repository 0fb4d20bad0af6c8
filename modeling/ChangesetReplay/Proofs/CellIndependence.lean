import ChangesetReplay.Proofs.ScalarWrites

/-! # What does not depend on a cell

Names, references and conditions are looked up in tables, columns, keys and indexes. Of the cells only
the one that is addressed is read. So a write of one cell makes no difference to an instruction that
addresses another one, whether it comes before or after. -/

namespace ChangesetReplay

namespace Table
variable {t : Table} {x y : ObjectKey} {c j : ColumnKey} {cell cell' : Cell}

theorem setCell_setCell : (t.setCell x c cell).setCell x c cell' = t.setCell x c cell' := by
  have hobjects : ((t.setCell x c cell).setCell x c cell').objects =
      (t.setCell x c cell').objects := by
    refine Std.ExtTreeMap.ext_getElem? fun k => ?_
    simp only [objects_setCell, Option.map_map]
    congr 1
    funext o
    by_cases hk : k = x
    · simp [hk, FiniteMap.insert_insert]
    · simp [hk]
  exact congrArg (fun objects => { t with objects := objects }) hobjects

theorem setCell_comm (h : ¬(x = y ∧ c = j)) :
    (t.setCell x c cell).setCell y j cell' = (t.setCell y j cell').setCell x c cell := by
  have hobjects : ((t.setCell x c cell).setCell y j cell').objects =
      ((t.setCell y j cell').setCell x c cell).objects := by
    refine Std.ExtTreeMap.ext_getElem? fun k => ?_
    simp only [objects_setCell, Option.map_map]
    congr 1
    funext o
    by_cases hx : k = x
    · by_cases hy : k = y
      · have hne : c ≠ j := fun hc => h ⟨hx.symm.trans hy, hc⟩
        simp [← hx, ← hy, FiniteMap.insert_comm hne]
      · simp [← hx, hy]
    · simp [hx]
  exact congrArg (fun objects => { t with objects := objects }) hobjects

theorem cell_setCell_of_ne (h : ¬(x = y ∧ c = j)) :
    (t.setCell x c cell).cell y j = t.cell y j := by
  have hobject : (t.setCell x c cell).object y = (t.object y).map fun o =>
      if y = x then { o with fields := o.fields.insert c cell } else o := by
    simp only [Table.object, objects_setCell]
    cases t.objects[y]? <;> rfl
  simp only [Table.cell, hobject]
  refine congrArg (t.columnDef j >>= ·) (funext fun d => ?_)
  cases ho : t.object y with
  | error e => rfl
  | ok o =>
    simp only [Except.map, Reading.ok_bind]
    by_cases hy : y = x
    · have hne : c ≠ j := fun hc => h ⟨hy.symm, hc⟩
      have hfield : (o.fields.insert c cell)[j]? = o.fields[j]? :=
        (FiniteMap.insert_eq_iff.mp rfl).2 j hne.symm
      simp only [hy, if_true, hfield]
      rfl
    · simp only [hy, if_false]
      rfl

end Table

namespace Store
variable {α : Type} {s : Store} {f g : FieldRef} {k : TableKey} {cell cell' : Cell}

theorem tables_putCell : (s.putCell f cell).tables[k]? =
    (s.tables[k]?).map fun t => if f.table = k then t.setCell f.object f.column cell else t := by
  by_cases hk : f.table = k
  · subst hk
    simp [putCell]
  · simp [putCell, Std.ExtTreeMap.getElem?_modify, Std.LawfulEqCmp.compare_eq_iff_eq, hk]

theorem putCell_eq_of_tables {s' : Store} (hversion : s'.schemaVersion = s.schemaVersion)
    (hnext : s'.nextTable = s.nextTable)
    (htables : ∀ k : TableKey, s'.tables[k]? = s.tables[k]?) : s' = s := by
  have : s'.tables = s.tables := Std.ExtTreeMap.ext_getElem? htables
  cases s
  cases s'
  simp_all

/-- The later write stands. -/
theorem putCell_overwritten : (s.putCell f cell).putCell f cell' = s.putCell f cell' := by
  refine putCell_eq_of_tables rfl rfl fun k => ?_
  simp only [tables_putCell, Option.map_map]
  congr 1
  funext t
  by_cases hk : f.table = k
  · simp [hk, Table.setCell_setCell]
  · simp [hk]

theorem putCell_comm (h : f ≠ g) :
    (s.putCell f cell).putCell g cell' = (s.putCell g cell').putCell f cell := by
  refine putCell_eq_of_tables rfl rfl fun k => ?_
  simp only [tables_putCell, Option.map_map]
  congr 1
  funext t
  by_cases hf : f.table = k
  · by_cases hg : g.table = k
    · have hne : ¬(f.object = g.object ∧ f.column = g.column) := by
        intro heq
        apply h
        cases f
        cases g
        simp_all
      simp [hf, hg, Table.setCell_comm hne]
    · simp [hf, hg]
  · simp [hf]

/-- What is read of a table is the same after a write of a cell, if it is so for the table itself. -/
theorem putCell_table_bind {F : Table → Except Cause α}
    (h : f.table = k → ∀ t, F (t.setCell f.object f.column cell) = F t) :
    ((s.putCell f cell).table k >>= F) = (s.table k >>= F) := by
  simp only [Store.table, tables_putCell]
  cases ht : s.tables[k]? with
  | none => rfl
  | some t =>
    show F (if f.table = k then _ else t) = F t
    by_cases hk : f.table = k
    · rw [if_pos hk, h hk]
    · rw [if_neg hk]

theorem findColumn_putCell {name : String} :
    (s.putCell f cell).findColumn k name = s.findColumn k name :=
  putCell_table_bind fun _ _ => rfl

theorem keyDef_putCell : (s.putCell f cell).keyDef k = s.keyDef k :=
  putCell_table_bind fun _ _ => rfl

theorem findObject_putCell {key : PrimaryKey} :
    (s.putCell f cell).findObject k key = s.findObject k key :=
  putCell_table_bind fun _ _ => rfl

theorem writableScalar_putCell : (s.putCell f cell).writableScalar g = s.writableScalar g :=
  putCell_table_bind fun _ _ => rfl

theorem tableNameOrEmpty_putCell :
    (s.putCell f cell).tableNameOrEmpty k = s.tableNameOrEmpty k := by
  simp only [tableNameOrEmpty, tables_putCell]
  cases s.tables[k]? with
  | none => rfl
  | some t => by_cases hk : f.table = k <;> simp [hk, Table.setCell]

theorem containsObject_putCell {x : ObjectKey} :
    (s.putCell f cell).containsObject k x = s.containsObject k x := by
  refine putCell_table_bind fun _ t => ?_
  have hcontains : (t.setCell f.object f.column cell).objects.contains x = t.objects.contains x := by
    rw [Bool.eq_iff_iff, ← Std.ExtTreeMap.mem_iff_contains, ← Std.ExtTreeMap.mem_iff_contains,
      Table.mem_objects_setCell]
  exact congrArg Except.ok hcontains

/-- A cell that is not written is read as before. -/
theorem cell_putCell (h : g ≠ f) :
    ((s.putCell f cell).table g.table >>= (·.cell g.object g.column)) =
      (s.table g.table >>= (·.cell g.object g.column)) := by
  refine putCell_table_bind fun htable t => Table.cell_setCell_of_ne fun heq => h ?_
  cases f
  cases g
  simp_all

theorem Named.putCell (h : s.Named) : (s.putCell f cell).Named := by
  refine h.of_old fun j v hv => ?_
  rw [tables_putCell] at hv
  obtain ⟨w, hw, rfl⟩ := Option.map_eq_some_iff.mp hv
  refine ⟨w, hw, ?_⟩
  split <;> exact ⟨rfl, rfl⟩

theorem Named.findTable_putCell {name : String} (h : s.Named) :
    (s.putCell f cell).findTable name = s.findTable name := by
  refine Option.ext fun k => ?_
  rw [h.putCell.findTable_eq_some_iff, h.findTable_eq_some_iff, tables_putCell]
  constructor
  · rintro ⟨v, hv, rfl⟩
    obtain ⟨w, hw, rfl⟩ := Option.map_eq_some_iff.mp hv
    refine ⟨w, hw, ?_⟩
    split <;> rfl
  · rintro ⟨t, ht, rfl⟩
    rw [ht]
    refine ⟨_, rfl, ?_⟩
    split <;> rfl

theorem Named.checkValue_putCell {d : ColumnDef} {v : Value} (h : s.Named) :
    (s.putCell f cell).checkValue d v = s.checkValue d v := by
  simp only [checkValue, h.findTable_putCell, containsObject_putCell]

end Store

namespace Changeset
variable {c : Changeset} {s : Store} {created : List Handle} {k : TableKey} {f : FieldRef}
variable {cell : Cell}

theorem column_putCell {id : NameId} : c.column (s.putCell f cell) k id = c.column s k id := by
  simp only [Changeset.column, Store.findColumn_putCell, Store.tableNameOrEmpty_putCell]

theorem existing_putCell {x : ObjectKey} {shown : String} :
    existing (s.putCell f cell) k x shown = existing s k x shown := by
  simp only [existing, Store.containsObject_putCell, Store.tableName_putCell]

theorem object_putCell {ref : ObjectRef} :
    c.object (s.putCell f cell) created k ref = c.object s created k ref := by
  cases ref <;> simp only [Changeset.object, existing_putCell, Store.tableName_putCell,
    Store.tableNameOrEmpty_putCell, Store.keyDef_putCell, Store.findObject_putCell]

theorem linkedObject_putCell {field : String} {ref : ObjectRef} :
    c.linkedObject (s.putCell f cell) created field k ref =
      c.linkedObject s created field k ref := by
  simp only [linkedObject, object_putCell, Store.tableName_putCell, Store.tableNameOrEmpty_putCell]

end Changeset

namespace ActionLaws
variable {ε σ α β : Type} {g : σ → σ} {s : σ}

def changed (g : σ → σ) : EStateM.Result ε σ α → EStateM.Result ε σ α
  | .ok a s => .ok a (g s)
  | .error e s => .error e (g s)

/-- In the state `s`, it makes no difference to `x` whether `g` is applied before or after it. -/
def Ignores (g : σ → σ) (s : σ) (x : EStateM ε σ α) : Prop := x (g s) = changed g (x s)

namespace Ignores

theorem pure (a : α) : Ignores g s (pure a : EStateM ε σ α) := rfl

theorem throw (e : ε) : Ignores g s (throw e : EStateM ε σ α) := rfl

theorem modify {f : σ → σ} (h : f (g s) = g (f s)) :
    Ignores g s (modify f : EStateM ε σ PUnit) := by
  show EStateM.Result.ok PUnit.unit (f (g s)) = .ok PUnit.unit (g (f s))
  rw [h]

theorem bind {x : EStateM ε σ α} {f : α → EStateM ε σ β} (hx : Ignores g s x)
    (hf : ∀ a t, x s = .ok a t → Ignores g t (f a)) : Ignores g s (x >>= f) := by
  have hx : x (g s) = changed g (x s) := hx
  simp only [Ignores, Bind.bind, EStateM.bind, hx]
  cases h : x s with
  | error e t => rfl
  | ok a t => exact hf a t h

theorem guard {c : Prop} [Decidable c] {x : EStateM ε σ α} {e : ε} (hx : Ignores g s x) :
    Ignores g s (if c then MonadExcept.throw e else x) := by
  by_cases h : c
  · simpa [h] using throw e
  · simpa [h] using hx

theorem read_bind {g : Store → Store} {s : Store} {r : Store → Except Cause α}
    {f : α → Store.Action β} (hr : r (g s) = r s) (hf : ∀ a, r s = .ok a → Ignores g s (f a)) :
    Ignores g s (Store.Action.read r >>= f) := by
  cases h : r s with
  | error e =>
    simp only [Ignores, read_bind_of_error h, read_bind_of_error (hr.trans h), changed]
  | ok a =>
    have hf : f a (g s) = changed g (f a s) := hf a h
    simp only [Ignores, read_bind_of_ok h, read_bind_of_ok (hr.trans h), hf]

end Ignores
end ActionLaws

open ActionLaws (Ignores)

namespace Store
variable {s : Store} {f g : FieldRef} {cell : Cell}

theorem setScalar_ignores (hs : s.Named) (h : g ≠ f) (v : Value) :
    Ignores (putCell · f cell) s (setScalar g v) := by
  refine .read_bind writableScalar_putCell fun d _ => ?_
  refine .read_bind hs.checkValue_putCell fun _ _ => ?_
  exact .read_bind (cell_putCell h) fun _ _ => .modify (putCell_comm h.symm)

theorem addInt_ignores (h : g ≠ f) (delta : Int64) :
    Ignores (putCell · f cell) s (addInt g delta) := by
  refine .read_bind writableScalar_putCell fun d _ => ?_
  refine .read_bind (cell_putCell h) fun a _ => ?_
  cases a with
  | list items => exact .throw _
  | scalar v =>
    cases v with
    | int n => exact .bind (.modify (putCell_comm h.symm)) fun _ _ _ => .pure _
    | _ => exact .throw _

end Store

def Progress.putCell (f : FieldRef) (cell : Cell) (p : Progress) : Progress :=
  { p with store := p.store.putCell f cell }

namespace Step
variable {α β : Type} {c : Changeset} {sel : Selection} {p : Progress} {f : FieldRef} {cell : Cell}
variable {d : ColumnDef} {ref : ObjectRef} {field : NameId}

theorem linkTarget_putCell {s : Store} (hs : s.Named) :
    linkTarget (s.putCell f cell) d = linkTarget s d := by
  simp only [linkTarget, hs.findTable_putCell]

theorem value_putCell {target : Option TableKey} {payload : Payload} :
    value c (p.putCell f cell) d target payload = value c p d target payload := by
  cases payload with
  | link ref =>
    cases target with
    | none => rfl
    | some k => simp only [value, Progress.putCell, Changeset.linkedObject_putCell]
  | _ => rfl

theorem scalarField_putCell :
    scalarField c sel (p.putCell f cell) ref field = scalarField c sel p ref field := by
  simp only [scalarField, Progress.putCell, Changeset.column_putCell, Changeset.object_putCell]

theorem look_ignores {r : Progress → Except Cause α} {x : α → Step β}
    (hr : r (p.putCell f cell) = r p)
    (hx : ∀ a, r p = .ok a → Ignores (·.putCell f cell) p (x a)) :
    Ignores (·.putCell f cell) p (look r >>= x) := by
  refine .bind ?_ fun a q ha => ?_
  · simp only [Ignores, look, hr]
    cases r p <;> rfl
  · obtain ⟨hr, rfl⟩ := look_ok_iff.mp ha
    exact hx a hr

theorem onStore_ignores {act : Store.Action α} {x : α → Step β}
    (hact : Ignores (Store.putCell · f cell) p.store act)
    (hx : ∀ a q, Ignores (·.putCell f cell) q (x a)) :
    Ignores (·.putCell f cell) p (onStore act >>= x) := by
  have hact : act (p.store.putCell f cell) = ActionLaws.changed _ (act p.store) := hact
  refine .bind ?_ fun a q _ => hx a q
  simp only [Ignores, onStore, Progress.putCell, hact]
  cases act p.store <;> rfl

theorem tableName_ignores {k : TableKey} {r : String → α} :
    Ignores (·.putCell f cell) p (tableName k >>= fun name => pure (r name)) :=
  look_ignores Store.tableName_putCell fun _ _ => .pure _

/-- A write of a single field ignores a write of another cell. -/
theorem set_ignores (hs : p.store.Coherent) {payload : Payload}
    (h : ∀ g t column, Addresses c sel p ref field g t column → g ≠ f) :
    Ignores (·.putCell f cell) p (set c sel ref field payload) := by
  refine look_ignores scalarField_putCell fun place hplace => ?_
  obtain ⟨k, x, column⟩ := place
  obtain ⟨t, haddresses⟩ := (scalarField_ok_iff hs).mp hplace
  refine look_ignores (linkTarget_putCell hs.named) fun target _ => ?_
  refine look_ignores value_putCell fun v _ => ?_
  exact onStore_ignores (Store.setScalar_ignores hs.named (h _ t column haddresses) v)
    fun _ _ => tableName_ignores

theorem addInteger_ignores (hs : p.store.Coherent) {delta : Int64}
    (h : ∀ g t column, Addresses c sel p ref field g t column → g ≠ f) :
    Ignores (·.putCell f cell) p (addInteger c sel ref field delta) := by
  refine look_ignores scalarField_putCell fun place hplace => ?_
  obtain ⟨k, x, column⟩ := place
  obtain ⟨t, haddresses⟩ := (scalarField_ok_iff hs).mp hplace
  refine .guard (onStore_ignores ?_ fun _ _ => tableName_ignores)
  exact Store.addInt_ignores (h _ t column haddresses) delta

end Step
end ChangesetReplay
