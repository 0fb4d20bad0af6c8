import ChangesetReplay.Proofs.CellWrites
import ChangesetReplay.Proofs.FailureCauses

/-! # Writes of single fields

Whether a single field is set is decided in many places: by the selection, the names and references
of the changeset, the columns of the table and the type of the value. What they come to is one
condition on the instruction. A write that meets it is accepted, no other one is, and it changes the
cell that it addresses and nothing else. -/

namespace ChangesetReplay

namespace Changeset
variable {c : Changeset} {s : Store} {created : List Handle} {k : TableKey} {x : ObjectKey}

/-- A link has one more reason to be refused than the reference in it, but not one more case. -/
theorem linkedObject_ok_iff {field : String} {ref : ObjectRef} :
    c.linkedObject s created field k ref = .ok x ↔ c.object s created k ref = .ok x := by
  cases ref with
  | key object => exact Iff.rfl
  | primaryKey key => exact Iff.rfl
  | created index =>
    cases hhandle : handle created index with
    | error e =>
      simp only [linkedObject, object, hhandle, Reading.error_bind]
    | ok h =>
      by_cases htable : h.table = k
      · simp only [linkedObject, object, hhandle, Reading.ok_bind, htable, ne_eq,
          not_true_eq_false, if_false]
      · simp [linkedObject, object, hhandle, Reading.ok_bind, htable]

/-- The value that a payload stands for in a column. -/
inductive Denotes (c : Changeset) (s : Store) (created : List Handle) (d : ColumnDef) :
    Payload → Value → Prop where
  | null : Denotes c s created d .null .null
  | int (n : Int64) : Denotes c s created d (.int n) (.int n)
  | bool (b : Bool) : Denotes c s created d (.bool b) (.bool b)
  | float (x : Binary64) : Denotes c s created d (.float x) (.float x)
  | string {range : StringRange} {text : String} (resolved : c.string range = .ok text) :
      Denotes c s created d (.string range) (.string text)
  | binary (bytes : List UInt8) : Denotes c s created d (.binary bytes) (.binary bytes)
  | timestamp (t : Timestamp) : Denotes c s created d (.timestamp t) (.timestamp t)
  | link {ref : ObjectRef} {k : TableKey} {t : Table} {x : ObjectKey}
      (table : s.tables[k]? = some t) (target : d.linkTarget = some t.name)
      (resolved : c.object s created k ref = .ok x) :
      Denotes c s created d (.link ref) (.link x)

end Changeset

theorem Store.Coherent.findColumn_eq_some_iff {s : Store} {k : TableKey} {name : String}
    {column : Column} (hs : s.Coherent) : s.findColumn k name = .ok (some column) ↔
      ∃ t, s.tables[k]? = some t ∧ column ∈ t.columns ∧ column.definition.name = name := by
  simp only [findColumn, Reading.bind_ok_iff, table_ok_iff, Reading.pure_ok_iff]
  refine exists_congr fun t => and_congr_right fun ht => ?_
  constructor
  · intro h
    exact ⟨List.mem_of_find?_eq_some h, by simpa using List.find?_some h⟩
  · rintro ⟨hmem, rfl⟩
    exact (hs.table k t ht).column?_eq hmem

namespace Step
variable {c : Changeset} {sel : Selection} {p : Progress} {ref : ObjectRef} {field : NameId}
variable {payload : Payload} {f : FieldRef} {t : Table} {column : Column} {d : ColumnDef} {w : Value}

theorem linkTarget_ok_iff {s : Store} {target : Option TableKey} (hs : s.Named) :
    linkTarget s d = .ok target ↔
      (∀ name, d.linkTarget = some name → ∃ k t, target = some k ∧ s.tables[k]? = some t ∧
        t.name = name) ∧ (d.linkTarget = none → target = none) := by
  unfold linkTarget
  cases hlink : d.linkTarget with
  | none => simp [eq_comm]
  | some name =>
    simp only [Option.some.injEq, forall_eq', reduceCtorEq, false_implies, and_true]
    cases hfound : s.findTable name with
    | none =>
      simp only [reduceCtorEq, false_iff]
      rintro ⟨k, t, -, ht, hname⟩
      exact Store.findTable_eq_none_iff.mp hfound k t ht hname
    | some k =>
      obtain ⟨t, ht, hname⟩ := hs.findTable_eq_some_iff.mp hfound
      simp only [Except.ok.injEq]
      constructor
      · rintro rfl
        exact ⟨k, t, rfl, ht, hname⟩
      · rintro ⟨j, u, rfl, hu, hname'⟩
        rw [hs.name_unique k j t u ht hu (hname.trans hname'.symm)]

/-- What is resolved as a value is what the payload denotes. -/
theorem value_ok_iff {target : Option TableKey} (hs : p.store.Named)
    (htarget : linkTarget p.store d = .ok target) :
    value c p d target payload = .ok w ↔ c.Denotes p.store p.created d payload w := by
  obtain ⟨hlinked, hplain⟩ := (linkTarget_ok_iff hs).mp htarget
  cases payload with
  | string range =>
    simp only [value, Reading.bind_ok_iff, Reading.pure_ok_iff]
    constructor
    · rintro ⟨text, htext, rfl⟩
      exact .string htext
    · intro h
      cases h with
      | string resolved => exact ⟨_, resolved, rfl⟩
  | link ref =>
    cases hlink : d.linkTarget with
    | none =>
      rw [hplain hlink]
      constructor
      · intro h
        cases h
      · intro h
        cases h with
        | link table target resolved => cases hlink.symm.trans target
    | some name =>
      obtain ⟨k, t, rfl, ht, rfl⟩ := hlinked name hlink
      simp only [value, Reading.bind_ok_iff, Reading.pure_ok_iff, Changeset.linkedObject_ok_iff]
      constructor
      · rintro ⟨x, hx, rfl⟩
        exact .link ht hlink hx
      · intro h
        cases h with
        | @link _ j u x table target resolved =>
          have hname : t.name = u.name := Option.some.inj (hlink.symm.trans target)
          cases hs.name_unique k j t u ht table hname
          exact ⟨x, resolved, rfl⟩
  | _ =>
    simp only [value, Except.ok.injEq]
    constructor
    · rintro rfl
      constructor
    · intro h
      cases h
      rfl

/-- An instruction on a single field addresses `f`: the field of the name given, in the object referred
to, of the selected table. -/
structure Addresses (c : Changeset) (sel : Selection) (p : Progress) (ref : ObjectRef)
    (field : NameId) (f : FieldRef) (t : Table) (column : Column) : Prop where
  selected : sel.selectedTable = .ok f.table
  table : p.store.tables[f.table]? = some t
  name : c.name field = .ok column.definition.name
  member : column ∈ t.columns
  key : column.key = f.column
  single : column.definition.isList = false
  object : c.object p.store p.created f.table ref = .ok f.object

theorem scalarField_ok_iff {k : TableKey} {x : ObjectKey} (hs : p.store.Coherent) :
    scalarField c sel p ref field = .ok (k, x, column) ↔
      ∃ t, Addresses c sel p ref field ⟨k, x, column.key⟩ t column := by
  simp only [scalarField, Reading.bind_ok_iff, Changeset.column_ok_iff, hs.findColumn_eq_some_iff]
  constructor
  · rintro ⟨k, hsel, column, ⟨name, hname, t, ht, hmem, rfl⟩, h⟩
    cases hlist : column.definition.isList with
    | true => simp [hlist] at h
    | false =>
      simp only [hlist, Bool.false_eq_true, if_false, Reading.bind_ok_iff, Reading.pure_ok_iff] at h
      obtain ⟨x, hx, h⟩ := h
      cases h
      exact ⟨t, hsel, ht, hname, hmem, rfl, hlist, hx⟩
  · rintro ⟨t, h⟩
    refine ⟨k, h.selected, column, ⟨_, h.name, t, h.table, h.member, rfl⟩, ?_⟩
    simp [h.single, h.object]

theorem Addresses.scalarField_eq (h : Addresses c sel p ref field f t column)
    (hs : p.store.Coherent) :
    scalarField c sel p ref field = .ok (f.table, f.object, column) := by
  refine (scalarField_ok_iff hs).mpr ⟨t, ?_⟩
  rwa [h.key]

theorem Addresses.columnDef_eq (h : Addresses c sel p ref field f t column)
    (hs : p.store.Coherent) : t.columnDef f.column = .ok column.definition := by
  rw [← h.key]
  exact (hs.table _ t h.table).columnDef_eq h.member

theorem Addresses.eq_of_cellAt {u : Table} {o : Object} {cell : Cell}
    (h : Addresses c sel p ref field f t column) (hs : p.store.Coherent)
    (hat : p.store.CellAt f u d o cell) : t = u ∧ column.definition = d := by
  cases h.table.symm.trans hat.table
  cases (h.columnDef_eq hs).symm.trans hat.column
  exact ⟨rfl, rfl⟩

theorem Addresses.tableName_putCell {cell : Cell} (h : Addresses c sel p ref field f t column) :
    (p.store.putCell f cell).tableName f.table = .ok t.name :=
  Store.tableName_putCell.trans (Store.tableName_of_tables h.table)

/-- The field that is addressed has a cell, and it holds a single value. -/
theorem Addresses.cellAt (h : Addresses c sel p ref field f t column) (hs : p.store.Intact) :
    ∃ o v, p.store.CellAt f t column.definition o (.scalar v) := by
  obtain ⟨u, hu, hmem⟩ := Changeset.object_holds hs.coherent h.object
  cases h.table.symm.trans hu
  obtain ⟨o, ho⟩ := FiniteMap.mem_iff_exists.mp hmem
  obtain ⟨cell, hcell, hfits⟩ :=
    ((hs.filled.table _ t h.table).object _ o ho).cell column h.member
  have hat : p.store.CellAt f t column.definition o cell :=
    ⟨h.table, h.columnDef_eq hs.coherent, ho, h.key ▸ hcell⟩
  cases cell with
  | scalar v => exact ⟨o, v, hat⟩
  | list l => cases hfits.shape.trans h.single

/-- What a `set` instruction has to meet: it addresses a single field outside the key column, and
its payload stands for a value that suits the column. -/
structure Fitting (c : Changeset) (sel : Selection) (p : Progress) (ref : ObjectRef)
    (field : NameId) (payload : Payload) (f : FieldRef) (t : Table) (column : Column) (w : Value) :
    Prop extends Addresses c sel p ref field f t column where
  noKey : ∀ d, t.keyDef = some d → d.column ≠ column.definition.name
  denotes : c.Denotes p.store p.created column.definition payload w
  suits : column.definition.Suits w

theorem isKeyColumn_eq_false_iff :
    t.isKeyColumn d = false ↔ ∀ k, t.keyDef = some k → k.column ≠ d.name := by
  rw [← Bool.not_eq_true, Table.isKeyColumn_iff]
  simp

/-- A fitting write is accepted, and changes the cell that it addresses and nothing else. -/
theorem Fitting.dispatch_set (h : Fitting c sel p ref field payload f t column w)
    (hs : p.store.Intact) :
    ∃ s', dispatch c sel (.set ref field payload) p =
        .ok (sel, .fieldSet t.name f.object column.definition.name w) { p with store := s' } ∧
      p.store.Written f (.scalar w) s' := by
  obtain ⟨o, v, hat⟩ := h.toAddresses.cellAt hs
  have hnamed := hs.coherent.named
  have hplace := h.toAddresses.scalarField_eq hs.coherent
  -- The table linked to is looked up before the payload, whatever that is.
  obtain ⟨target, htarget⟩ : ∃ target, linkTarget p.store column.definition = .ok target := by
    cases hlink : column.definition.linkTarget with
    | none => exact ⟨none, (linkTarget_ok_iff hnamed).mpr (by simp [hlink])⟩
    | some name =>
      obtain ⟨k, u, hu, rfl⟩ := hs.filled.target _ t h.table column h.member name hlink
      exact ⟨some k, (linkTarget_ok_iff hnamed).mpr (by simp [hlink, hu])⟩
  have hvalue := (value_ok_iff hnamed htarget).mpr h.denotes
  have hadmits : column.definition.Admits p.store w := by
    refine ⟨h.suits, fun x hx => ?_⟩
    cases h.denotes with
    | @link ref k u y table target resolved =>
      cases hx
      obtain ⟨u', hu', hmem⟩ := Changeset.object_holds hs.coherent resolved
      cases table.symm.trans hu'
      exact ⟨k, u, table, target, hmem⟩
    | _ => cases hx
  have hvalid := (hs.filled.table _ t h.table).valid column h.member
  have hset : Store.setScalar ⟨f.table, f.object, column.key⟩ w p.store =
      .ok () (p.store.putCell f (.scalar w)) :=
    h.key ▸ Store.setScalar_ok_iff.mpr ⟨t, _, o, _, hat, h.single,
      isKeyColumn_eq_false_iff.mpr h.noKey,
      (ColumnDef.checkValue_ok_iff_admits hnamed hvalid).mpr hadmits, rfl⟩
  refine ⟨p.store.putCell f (.scalar w), ?_, hat.written_iff.mpr rfl⟩
  simp only [dispatch, set, tableName, bind_pure_comp, look_bind_ok_iff, onStore_bind_ok_iff,
    ActionLaws.map_ok_iff, look_ok_iff, Prod.mk.injEq, Prod.exists]
  exact ⟨_, _, _, hplace, target, htarget, w, hvalue, (), _, hset, t.name,
    ⟨h.toAddresses.tableName_putCell, rfl⟩, trivial, rfl⟩

/-- No other write is accepted. -/
theorem fitting_of_dispatch_set {r : Selection × Effect} {p' : Progress} (hs : p.store.Intact)
    (h : dispatch c sel (.set ref field payload) p = .ok r p') :
    ∃ f t column w, Fitting c sel p ref field payload f t column w := by
  obtain ⟨sel', e⟩ := r
  cases dispatch_outcome h with
  | @set _ _ _ k x column target w name s place linked resolved label done =>
    obtain ⟨t, haddresses⟩ := (scalarField_ok_iff hs.coherent).mp place
    obtain ⟨u, d, o, old, hat, -, hnoKey, hvalue, -⟩ := Store.setScalar_ok_iff.mp done
    obtain ⟨rfl, rfl⟩ := haddresses.eq_of_cellAt hs.coherent hat
    have hsuits := ColumnDef.checkElement_ok_iff.mp (Store.checkElement_of_checkValue hvalue)
    exact ⟨_, t, column, w, haddresses, isKeyColumn_eq_false_iff.mp hnoKey,
      (value_ok_iff hs.coherent.named linked).mp resolved, hsuits⟩

end Step

namespace Replay
variable {c : Changeset} {sel : Selection} {p : Progress}

/-- What every change preserves is preserved along a run. -/
theorem follow_invariant {P : Store → Prop} (hchange : ∀ {s s'}, s.Change s' → P s → P s')
    (l : List Instruction) (h : P p.store) : P (follow c sel p l).2.store := by
  induction l generalizing sel p with
  | nil => exact h
  | cons i rest ih =>
    refine ih ?_
    cases hstep : Step.dispatch c sel i p with
    | error cause p' =>
      cases Step.dispatch_atomic c sel i p cause p' hstep
      simpa only [attempt, hstep] using h
    | ok r p' =>
      obtain ⟨sel', e⟩ := r
      rcases (Step.dispatch_outcome hstep).call with ⟨-, rfl⟩ | ⟨call, a, hcall⟩
      · simpa only [attempt, hstep] using h
      · simpa only [attempt, hstep] using hchange (Store.Call.change hcall.run) h

theorem follow_intact (v : SchemaVersion) (turns : List Turn) (c : Changeset)
    (l : List Instruction) :
    (follow c .none ⟨Turn.afterAll (.new v) turns, []⟩ l).2.store.Intact :=
  follow_invariant Store.Change.intact l (Turn.afterAll_intact (.new v))

/-- At every point of a run, under any selection, a `set` instruction is accepted exactly if it fits;
and then the cell that it addresses holds the value that the payload stands for, the selection is
the same, and so is all the rest of the store. -/
theorem scalar_written_exactly (v : SchemaVersion) (turns : List Turn) (c : Changeset)
    (l : List Instruction) (sel : Selection) (ref : ObjectRef) (field : NameId)
    (payload : Payload) :
    let p := (follow c .none ⟨Turn.afterAll (.new v) turns, []⟩ l).2
    ((∃ r p', Step.dispatch c sel (.set ref field payload) p = .ok r p') ↔
      ∃ f t column w, Step.Fitting c sel p ref field payload f t column w) ∧
    ∀ f t column w, Step.Fitting c sel p ref field payload f t column w →
      ∃ s', Step.dispatch c sel (.set ref field payload) p =
          .ok (sel, .fieldSet t.name f.object column.definition.name w) ⟨s', p.created⟩ ∧
        p.store.Written f (.scalar w) s' := by
  intro p
  have hs : p.store.Intact := follow_intact v turns c l
  refine ⟨⟨?_, ?_⟩, fun f t column w h => h.dispatch_set hs⟩
  · rintro ⟨r, p', h⟩
    exact Step.fitting_of_dispatch_set hs h
  · rintro ⟨f, t, column, w, h⟩
    obtain ⟨s', hdone, -⟩ := h.dispatch_set hs
    exact ⟨_, _, hdone⟩

def teamNames : Changeset := { Changeset.new 1 with strings := ["people", "team"] }

def leaving : List Instruction :=
  [.selectTable ⟨0⟩, .set (.primaryKey (.int 7)) ⟨1⟩ .null]

theorem scalar_written_exactly_team :
    let p := (follow teamNames .none
      ⟨Turn.afterAll (.new 1) (Store.teamOperations.map .operate), []⟩ leaving).2
    p.store.scalar ⟨⟨1⟩, ⟨0⟩, ⟨1⟩⟩ = .ok .null ∧
    ∃ t, Step.Fitting teamNames (.table ⟨1⟩) p (.primaryKey (.int 7)) ⟨1⟩ (.link (.key ⟨0⟩))
        ⟨⟨1⟩, ⟨0⟩, ⟨1⟩⟩ t ⟨⟨1⟩, .linkTo "team" "teams"⟩ (.link ⟨0⟩) ∧
      ∃ s', Step.dispatch teamNames (.table ⟨1⟩)
          (.set (.primaryKey (.int 7)) ⟨1⟩ (.link (.key ⟨0⟩))) p =
            .ok (.table ⟨1⟩, .fieldSet "people" ⟨0⟩ "team" (.link ⟨0⟩)) ⟨s', p.created⟩ ∧
        p.store.Written ⟨⟨1⟩, ⟨0⟩, ⟨1⟩⟩ (.scalar (.link ⟨0⟩)) s' := by
  intro p
  have hteams : ∃ u, p.store.tables[(⟨0⟩ : TableKey)]? = some u ∧ u.name = "teams" :=
    ⟨_, rfl, rfl⟩
  obtain ⟨u, hu, hname⟩ := hteams
  have hfitting : Step.Fitting teamNames (.table ⟨1⟩) p (.primaryKey (.int 7)) ⟨1⟩
      (.link (.key ⟨0⟩)) ⟨⟨1⟩, ⟨0⟩, ⟨1⟩⟩ _ ⟨⟨1⟩, .linkTo "team" "teams"⟩ (.link ⟨0⟩) :=
    { selected := rfl, table := rfl, name := rfl, member := by decide, key := rfl, single := rfl
      object := rfl
      noKey := fun d hd => by cases hd; decide
      denotes := .link hu (congrArg some hname.symm) rfl
      suits := ColumnDef.checkElement_ok_iff.mp rfl }
  exact ⟨rfl, _, hfitting, (scalar_written_exactly 1 (Store.teamOperations.map .operate) teamNames
    leaving (.table ⟨1⟩) (.primaryKey (.int 7)) ⟨1⟩ (.link (.key ⟨0⟩))).2 _ _ _ _ hfitting⟩

end Replay
end ChangesetReplay
