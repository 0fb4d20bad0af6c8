import ChangesetReplay.Proofs.KeyInheritance
import ChangesetReplay.Proofs.ReachableStores

/-! # Keys that are given out

A counter remembers all the keys that it gave out: it is above them, those of erased tables, columns
and objects included. What is created is given the key that is due, which is above all others of its
family, and what stands under a key that was given out is what was created under it, or nothing. -/

namespace ChangesetReplay

theorem Reading.toOption_eq_some_iff {ε α : Type} {x : Except ε α} {a : α} :
    x.toOption = some a ↔ x = .ok a := by
  cases x <;> simp [Except.toOption]

/-- The column that was just added is found under its key. -/
theorem Table.columnDef_withColumn {t : Table} {d : ColumnDef}
    (hfree : ∀ c ∈ t.columns, c.key ≠ ⟨t.nextColumn⟩) :
    (t.withColumn d).columnDef ⟨t.nextColumn⟩ = .ok d := by
  refine Keeps.columnDef_ok_iff.mpr ⟨⟨⟨t.nextColumn⟩, d⟩, ?_, rfl⟩
  have hnone : t.columns.find? (·.key = ⟨t.nextColumn⟩) = none := by simpa using hfree
  rw [withColumn, List.find?_append, hnone, Option.none_or, List.find?_singleton]
  simp

inductive Key where
  | table (k : TableKey)
  | column (t : TableKey) (c : ColumnKey)
  | object (t : TableKey) (j : ObjectKey)
deriving DecidableEq

/-- The keys that one counter gives out. -/
inductive KeyFamily where
  | tables
  | columns (t : TableKey)
  | objects (t : TableKey)
deriving DecidableEq

/-- What is told of a table, a column or an object that stands under a key. None of this ever
changes, as long as it is there. -/
inductive Denotation where
  | table (name : String) (keyDef : Option KeyDef)
  | column (d : ColumnDef)
  | object (primaryKey : Option PrimaryKey)
deriving DecidableEq

namespace Key

def family : Key → KeyFamily
  | table _ => .tables
  | column t _ => .columns t
  | object t _ => .objects t

def index : Key → Nat
  | table k => k.index.toNat
  | column _ c => c.index.toNat
  | object _ j => j.index.toNat

def owner : Key → TableKey
  | table k => k
  | column t _ => t
  | object t _ => t

/-- Of two keys that one counter gives out, the first one is smaller. -/
def Precedes (x y : Key) : Prop := x.family = y.family → x.index < y.index

instance (x y : Key) : Decidable (x.Precedes y) :=
  inferInstanceAs (Decidable (x.family = y.family → x.index < y.index))

end Key

namespace Store

/-- The number that the next key of a family is to have; none if its table is not there. -/
def counter? (s : Store) : KeyFamily → Option Nat
  | .tables => some s.nextTable.toNat
  | .columns t => (s.tables[t]?).map (·.nextColumn.toNat)
  | .objects t => (s.tables[t]?).map (·.nextObject.toNat)

def denotation? (s : Store) : Key → Option Denotation
  | .table k => (s.tables[k]?).map fun t => .table t.name t.keyDef
  | .column t c => (s.tables[t]?).bind fun t => (t.columnDef c).toOption.map .column
  | .object t j => (s.tables[t]?).bind fun t => (t.objects[j]?).map fun o => .object o.primaryKey

/-- The key was given out before: the counters are above it. -/
structure Passed (s : Store) (x : Key) : Prop where
  owner : x.owner.index < s.nextTable
  index : ∀ n, s.counter? x.family = some n → x.index < n

variable {s s' : Store} {x y : Key}

/-- The table of a key that was given out came from before. -/
theorem Inherits.owner (h : s.Inherits s') (hx : x.owner.index < s.nextTable) {u : Table}
    (hu : s'.tables[x.owner]? = some u) : ∃ t, s.tables[x.owner]? = some t ∧ t.Inherits u := by
  rcases h.table _ u hu with hold | hnew
  · exact hold
  · exact absurd hx (UInt32.not_lt.mpr hnew)

theorem Passed.of_inherits (hx : s.Passed x) (h : s.Inherits s') : s'.Passed x where
  owner := UInt32.lt_of_lt_of_le hx.owner h.next_le
  index n hn := by
    cases x with
    | table k =>
      cases hn
      exact Nat.lt_of_lt_of_le (hx.index _ rfl) h.next_le
    | column t c =>
      obtain ⟨u, hu, rfl⟩ := Option.map_eq_some_iff.mp hn
      obtain ⟨t', ht', hinherits⟩ := h.owner hx.owner hu
      refine Nat.lt_of_lt_of_le (hx.index t'.nextColumn.toNat ?_) hinherits.nextColumn_le
      exact Option.map_eq_some_iff.mpr ⟨t', ht', rfl⟩
    | object t j =>
      obtain ⟨u, hu, rfl⟩ := Option.map_eq_some_iff.mp hn
      obtain ⟨t', ht', hinherits⟩ := h.owner hx.owner hu
      refine Nat.lt_of_lt_of_le (hx.index t'.nextObject.toNat ?_) hinherits.nextObject_le
      exact Option.map_eq_some_iff.mpr ⟨t', ht', rfl⟩

theorem denotation?_column {t : TableKey} {c : ColumnKey} {f : Denotation} :
    s.denotation? (.column t c) = some f ↔
      ∃ u d, s.tables[t]? = some u ∧ u.columnDef c = .ok d ∧ .column d = f := by
  cases hu : s.tables[t]? with
  | none => simp [denotation?, hu]
  | some u => cases hd : u.columnDef c <;> simp [denotation?, hu, hd, Except.toOption]

theorem denotation?_object {t : TableKey} {j : ObjectKey} {f : Denotation} :
    s.denotation? (.object t j) = some f ↔
      ∃ u o, s.tables[t]? = some u ∧ u.objects[j]? = some o ∧ .object o.primaryKey = f := by
  cases hu : s.tables[t]? with
  | none => simp [denotation?, hu]
  | some u => simp [denotation?, hu]

theorem Passed.denotation?_of_inherits (hx : s.Passed x) (h : s.Inherits s') {f : Denotation}
    (hf : s'.denotation? x = some f) : s.denotation? x = some f := by
  cases x with
  | table k =>
    obtain ⟨u, hu, rfl⟩ := Option.map_eq_some_iff.mp hf
    obtain ⟨t, ht, hinherits⟩ := h.owner hx.owner hu
    exact Option.map_eq_some_iff.mpr ⟨t, ht, by rw [hinherits.name, hinherits.keyDef]⟩
  | column k c =>
    obtain ⟨u, d, hu, hd, rfl⟩ := denotation?_column.mp hf
    obtain ⟨t, ht, hinherits⟩ := h.owner hx.owner hu
    rcases hinherits.column c d hd with hold | hnew
    · exact denotation?_column.mpr ⟨t, d, ht, hold, rfl⟩
    · refine absurd (hx.index t.nextColumn.toNat ?_) (Nat.not_lt.mpr hnew)
      exact Option.map_eq_some_iff.mpr ⟨t, ht, rfl⟩
  | object k j =>
    obtain ⟨u, o, hu, ho, rfl⟩ := denotation?_object.mp hf
    obtain ⟨t, ht, hinherits⟩ := h.owner hx.owner hu
    rcases hinherits.object j o ho with ⟨o', ho', hkey⟩ | hnew
    · exact denotation?_object.mpr ⟨t, o', ht, ho', hkey ▸ rfl⟩
    · refine absurd (hx.index t.nextObject.toNat ?_) (Nat.not_lt.mpr hnew)
      exact Option.map_eq_some_iff.mpr ⟨t, ht, rfl⟩

/-- Under a key that was given out stands what stood there before, or nothing. -/
theorem Passed.denotation?_eq (hx : s.Passed x) (h : s.Inherits s') :
    s'.denotation? x = none ∨ s'.denotation? x = s.denotation? x := by
  cases hf : s'.denotation? x with
  | none => exact .inl rfl
  | some f => exact .inr (hx.denotation?_of_inherits h hf).symm

/-- The counter that gives out a key is above all keys that it gave out before. -/
theorem Passed.precedes (hx : s.Passed x) (hy : s.counter? y.family = some y.index) :
    x.Precedes y := by
  intro hfamily
  exact hx.index _ (hfamily ▸ hy)

/-- A new key was given out: the one that was due, under which nothing stood and now something
does. -/
structure Issues (s : Store) (x : Key) (s' : Store) : Prop where
  due : s.counter? x.family = some x.index
  absent : s.denotation? x = none
  passed : s'.Passed x
  present : ∃ f, s'.denotation? x = some f

theorem addTable_issues {name : String} {keyDef : Option KeyDef} {k : TableKey}
    (hroom : s.HasRoom) (h : addTable name keyDef s = .ok k s') : s.Issues (.table k) s' := by
  obtain ⟨-, hfree, rfl, rfl⟩ := addTable_ok_iff.mp h
  have hnext := lt_add_one_of_room hroom.table
  have habsent : s.tables[(⟨s.nextTable⟩ : TableKey)]? = none :=
    Std.ExtTreeMap.getElem?_eq_none hfree
  refine ⟨rfl, by rw [denotation?, habsent, Option.map_none], ⟨hnext, ?_⟩, ?_⟩
  · rintro n ⟨⟩
    exact hnext
  · exact ⟨_, Option.map_eq_some_iff.mpr ⟨_, tables_putTable_self, rfl⟩⟩

theorem addColumn_issues {k : TableKey} {d : ColumnDef} {c : ColumnKey} (hs : s.Sound)
    (hroom : s.HasRoom) (h : addColumn k d s = .ok c s') : s.Issues (.column k c) s' := by
  obtain ⟨-, -, t, ht, -, hfree, rfl, rfl⟩ := addColumn_ok_iff.mp h
  have hafter : (s.putTable k (t.withColumn d)).tables[k]? = some (t.withColumn d) :=
    tables_putTable_self
  refine ⟨Option.map_eq_some_iff.mpr ⟨t, ht, rfl⟩, ?_, ⟨hs.key_lt k t ht, ?_⟩, ?_⟩
  · rw [Option.eq_none_iff_forall_ne_some]
    intro f hf
    obtain ⟨u, d', hu, hd, -⟩ := denotation?_column.mp hf
    cases ht.symm.trans hu
    exact hfree _ (Table.columnDef_ok hd) rfl
  · intro n hn
    obtain ⟨u, hu, rfl⟩ := Option.map_eq_some_iff.mp hn
    cases hafter.symm.trans hu
    exact lt_add_one_of_room (hroom.column k t ht)
  · exact ⟨_, denotation?_column.mpr ⟨_, d, hafter, Table.columnDef_withColumn hfree, rfl⟩⟩

theorem createObject_issues {k : TableKey} {key : Option PrimaryKey} {j : ObjectKey}
    (hs : s.Sound) (hroom : s.HasRoom) (h : createObject k key s = .ok j s') :
    s.Issues (.object k j) s' := by
  obtain ⟨t, ht, -, hfree, rfl, rfl⟩ := createObject_ok_iff.mp h
  have hafter : (s.putTable k (t.pushObject key).2).tables[k]? = some (t.pushObject key).2 :=
    tables_putTable_self
  refine ⟨Option.map_eq_some_iff.mpr ⟨t, ht, rfl⟩, ?_, ⟨hs.key_lt k t ht, ?_⟩, ?_⟩
  · rw [Option.eq_none_iff_forall_ne_some]
    rintro f hf
    obtain ⟨u, o, hu, ho, -⟩ := denotation?_object.mp hf
    cases ht.symm.trans hu
    exact hfree (FiniteMap.mem_iff_exists.mpr ⟨o, ho⟩)
  · intro n hn
    obtain ⟨u, hu, rfl⟩ := Option.map_eq_some_iff.mp hn
    cases hafter.symm.trans hu
    exact objectKey_lt_add_one (hroom.object k t ht)
  · exact ⟨_, denotation?_object.mpr
      ⟨_, _, hafter, Table.objects_pushObject.mpr (.inl ⟨rfl, rfl⟩), rfl⟩⟩

def Action.answer? {α : Type} (act : Action α) (s : Store) : Option α :=
  match act s with
  | .ok a _ => some a
  | .error _ _ => none

theorem Action.answer?_eq_some_iff {α : Type} {act : Action α} {a : α} :
    answer? act s = some a ↔ ∃ s', act s = .ok a s' := by
  unfold answer?
  cases act s <;> simp

/-- The key that a call answers when it creates a table, a column or an object. -/
def Call.issued? (s : Store) : Call → Option Key
  | .addTable name keyDef => (Action.answer? (Store.addTable name keyDef) s).map .table
  | .addColumn t d => (Action.answer? (Store.addColumn t d) s).map (.column t)
  | .createObject t key => (Action.answer? (Store.createObject t key) s).map (.object t)
  | _ => none

/-- The key that a call answers was due, even if no counter has room. -/
theorem Call.due_of_issued? {call : Call} (h : call.issued? s = some x) :
    s.counter? x.family = some x.index := by
  cases call with
  | addTable name keyDef =>
    obtain ⟨k, hk, rfl⟩ := Option.map_eq_some_iff.mp h
    obtain ⟨s', hs'⟩ := Action.answer?_eq_some_iff.mp hk
    obtain ⟨-, -, rfl, -⟩ := addTable_ok_iff.mp hs'
    rfl
  | addColumn t d =>
    obtain ⟨c, hc, rfl⟩ := Option.map_eq_some_iff.mp h
    obtain ⟨s', hs'⟩ := Action.answer?_eq_some_iff.mp hc
    obtain ⟨-, -, u, hu, -, -, rfl, -⟩ := addColumn_ok_iff.mp hs'
    exact Option.map_eq_some_iff.mpr ⟨u, hu, rfl⟩
  | createObject t key =>
    obtain ⟨j, hj, rfl⟩ := Option.map_eq_some_iff.mp h
    obtain ⟨s', hs'⟩ := Action.answer?_eq_some_iff.mp hj
    obtain ⟨u, hu, -, -, rfl, -⟩ := createObject_ok_iff.mp hs'
    exact Option.map_eq_some_iff.mpr ⟨u, hu, rfl⟩
  | _ => cases h

theorem Call.run_of_issued? {call : Call} (h : call.issued? s = some x) :
    ∃ a s', call.run s = .ok a s' ∧ (s.Sound → s.HasRoom → s.Issues x s') := by
  cases call with
  | addTable name keyDef =>
    obtain ⟨k, hk, rfl⟩ := Option.map_eq_some_iff.mp h
    obtain ⟨s', hs'⟩ := Action.answer?_eq_some_iff.mp hk
    exact ⟨_, s', ActionLaws.map_ok_iff.mpr ⟨k, hs', rfl⟩, fun _ hroom => addTable_issues hroom hs'⟩
  | addColumn t d =>
    obtain ⟨c, hc, rfl⟩ := Option.map_eq_some_iff.mp h
    obtain ⟨s', hs'⟩ := Action.answer?_eq_some_iff.mp hc
    exact ⟨_, s', ActionLaws.map_ok_iff.mpr ⟨c, hs', rfl⟩,
      fun hs hroom => addColumn_issues hs hroom hs'⟩
  | createObject t key =>
    obtain ⟨j, hj, rfl⟩ := Option.map_eq_some_iff.mp h
    obtain ⟨s', hs'⟩ := Action.answer?_eq_some_iff.mp hj
    exact ⟨_, s', ActionLaws.map_ok_iff.mpr ⟨j, hs', rfl⟩,
      fun hs hroom => createObject_issues hs hroom hs'⟩
  | _ => cases h

end Store

namespace Step
variable {c : Changeset} {sel : Selection} {s s' : Store} {created : List Handle}

/-- The call by which an instruction creates something, once its names are resolved. -/
def creation? (c : Changeset) (sel : Selection) (s : Store) : Instruction → Option Store.Call
  | .addTable id key => do
    some (.addTable (← (c.name id).toOption) (← (c.keyDef key).toOption))
  | .addColumn id column type nullable isList target => do
    let d ← (newColumn c column type nullable isList target).toOption
    some (.addColumn (← (c.table s id).toOption) d)
  | .createObject key => do
    some (.createObject (← sel.selectedTable.toOption) (← (c.newKey key).toOption))
  | _ => none

theorem look_bind {α β : Type} {f : Progress → Except Cause α} {g : α → Step β} {p : Progress}
    {a : α} (h : f p = .ok a) : (look f >>= g) p = g a p := by
  simp only [bind, EStateM.bind, look, h]

/-- After an action that succeeds, a step may go on to name a table that the action left there. -/
theorem onStore_bind_named {α β : Type} {act : Store.Action α} {g : α → Step β} {t : TableKey}
    {a : α} {name : String} (hact : act s = .ok a s') (hname : s'.tableName t = .ok name)
    (hg : Names t (g a)) :
    ∃ r p', (onStore act >>= g) ⟨s, created⟩ = .ok r p' ∧ p'.store = s' := by
  obtain ⟨r, p', hr, hp⟩ := hg ⟨s', created⟩ name hname
  exact ⟨r, p', onStore_bind_ok_iff.mpr ⟨a, s', hact, hr⟩, hp⟩

/-- When the call succeeds so does the instruction, and it leaves the store that the call leaves. -/
theorem dispatch_of_creation? (created : List Handle) {i : Instruction} {call : Store.Call}
    {a : Store.Answer} (hcall : creation? c sel s i = some call) (hrun : call.run s = .ok a s') :
    ∃ r p', dispatch c sel i ⟨s, created⟩ = .ok r p' ∧ p'.store = s' := by
  cases i with
  | addTable id key =>
    obtain ⟨name, hname, hcall⟩ := Option.bind_eq_some_iff.mp hcall
    obtain ⟨keyDef, hkey, hcall⟩ := Option.bind_eq_some_iff.mp hcall
    cases hcall
    obtain ⟨t, hadd, -⟩ := ActionLaws.map_ok_iff.mp hrun
    have hcreate := Changeset.createTable_ok_iff.mpr
      ⟨name, keyDef, Reading.toOption_eq_some_iff.mp hname,
        Reading.toOption_eq_some_iff.mp hkey, hadd⟩
    exact onStore_bind_named hcreate (Store.addTable_tableName hadd)
      (.bind (.tableName t) fun _ => .pure _)
  | addColumn id column type nullable isList target =>
    obtain ⟨d, hd, hcall⟩ := Option.bind_eq_some_iff.mp hcall
    obtain ⟨t, ht, hcall⟩ := Option.bind_eq_some_iff.mp hcall
    cases hcall
    obtain ⟨k, hadd, -⟩ := ActionLaws.map_ok_iff.mp hrun
    obtain ⟨name, hname⟩ := (Store.addColumn_keepsNames d).named hadd
    rw [dispatch, look_bind (Reading.toOption_eq_some_iff.mp hd), addColumn,
      look_bind (Reading.toOption_eq_some_iff.mp ht)]
    exact onStore_bind_named hadd hname (.bind (.tableName t) fun _ => .pure _)
  | createObject key =>
    obtain ⟨t, ht, hcall⟩ := Option.bind_eq_some_iff.mp hcall
    obtain ⟨key', hkey, hcall⟩ := Option.bind_eq_some_iff.mp hcall
    cases hcall
    obtain ⟨o, hcreate, -⟩ := ActionLaws.map_ok_iff.mp hrun
    obtain ⟨name, hname⟩ := (Store.createObject_keepsNames key').named hcreate
    rw [dispatch, createObject, look_bind (Reading.toOption_eq_some_iff.mp ht)]
    have hrest : ∀ o, Names t (do
        let index ← register ⟨t, o⟩
        return (sel, .objectCreated (← tableName t) o index) : Step (Selection × Effect)) :=
      fun o => .bind (.register _) fun _ => .bind (.tableName t) fun _ => .pure _
    cases key with
    | none =>
      cases Reading.toOption_eq_some_iff.mp hkey
      exact onStore_bind_named hcreate hname (hrest o)
    | some k =>
      obtain ⟨p, hp, hkey⟩ := Reading.bind_ok_iff.mp (Reading.toOption_eq_some_iff.mp hkey)
      cases hkey
      have hlook : ∀ g : PrimaryKey → Step (Selection × Effect),
          (look (fun _ => c.primaryKey k) >>= g) ⟨s, created⟩ = g p ⟨s, created⟩ :=
        fun _ => look_bind hp
      simp only [hlook, pure_bind]
      exact onStore_bind_named hcreate hname (hrest o)
  | _ => cases hcall

/-- An instruction is given a key exactly if it is one that creates, and succeeds. -/
theorem issued?_isSome_iff {i : Instruction} :
    ((creation? c sel s i).bind (·.issued? s)).isSome ↔
      (i.kind = .addTable ∨ i.kind = .addColumn ∨ i.kind = .createObject) ∧
        ∃ r p', dispatch c sel i ⟨s, created⟩ = .ok r p' := by
  constructor
  · intro h
    obtain ⟨x, hx⟩ := Option.isSome_iff_exists.mp h
    obtain ⟨call, hcall, hx⟩ := Option.bind_eq_some_iff.mp hx
    obtain ⟨a, s', hrun, -⟩ := Store.Call.run_of_issued? hx
    obtain ⟨r, p', hstep, -⟩ := dispatch_of_creation? created hcall hrun
    refine ⟨?_, r, p', hstep⟩
    cases i with
    | addTable id key => exact .inl rfl
    | addColumn id column type nullable isList target => exact .inr (.inl rfl)
    | createObject key => exact .inr (.inr rfl)
    | _ => cases hcall
  · rintro ⟨hkind, ⟨sel', e⟩, p', hstep⟩
    have hout := dispatch_outcome hstep
    clear hstep
    cases hout with
    | addTable named keyed done =>
      simp [creation?, named, keyed, Except.toOption, Store.Call.issued?, Store.Action.answer?,
        done]
    | addColumn defined found label done =>
      simp [creation?, defined, found, Except.toOption, Store.Call.issued?, Store.Action.answer?,
        done]
    | createObject selected keyed label done =>
      simp [creation?, selected, keyed, Except.toOption, Store.Call.issued?, Store.Action.answer?,
        done]
    | _ => simp [Instruction.kind] at hkind

end Step

namespace Operation
variable {s : Store} {op : Operation} {x : Key}

def issued? (s : Store) : Operation → Option Key
  | .call made => made.issued? s
  | .dispatch c sel _ i => (Step.creation? c sel s i).bind (·.issued? s)

theorem issues (hs : s.Sound) (hroom : s.HasRoom) (h : op.issued? s = some x) :
    s.Issues x (op.after s) := by
  cases op with
  | call made =>
    obtain ⟨a, s', hrun, hissues⟩ := Store.Call.run_of_issued? h
    simpa only [after, hrun] using hissues hs hroom
  | dispatch c sel created i =>
    obtain ⟨call, hcall, h⟩ := Option.bind_eq_some_iff.mp h
    obtain ⟨a, s', hrun, hissues⟩ := Store.Call.run_of_issued? h
    obtain ⟨r, p', hstep, rfl⟩ := Step.dispatch_of_creation? created hcall hrun
    simpa only [after, hstep] using hissues hs hroom

end Operation

end ChangesetReplay
