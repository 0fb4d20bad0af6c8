import ChangesetReplay.Proofs.StoreHistories

/-! # Selections stay valid

A selection is a bundle of keys that is kept outside the store. While a changeset is followed, what
it names is there: what a step erases is given up, and the table that a selected list of links leads
to cannot be erased as long as that list is there. -/

namespace ChangesetReplay

namespace Store
variable {s : Store} {k : TableKey} {j : ObjectKey}

theorem containsObject_true_iff : s.containsObject k j = .ok true ↔ s.Holds ⟨k, j⟩ := by
  simp only [containsObject_ok_iff, Holds, Std.ExtTreeMap.mem_iff_contains]

end Store

namespace Changeset
variable {c : Changeset} {s : Store} {k : TableKey} {i j : ObjectKey} {created : List Handle}

theorem existing_ok_iff {shown : String} :
    existing s k i shown = .ok j ↔ i = j ∧ s.Holds ⟨k, i⟩ := by
  rw [existing, Reading.bind_ok_iff, ← Store.containsObject_true_iff]
  constructor
  · rintro ⟨b, hb, h⟩
    cases b with
    | true => exact ⟨Except.ok.inj h, hb⟩
    | false => simp at h
  · rintro ⟨rfl, hb⟩
    exact ⟨true, hb, rfl⟩

theorem table_ok_iff {id : NameId} :
    c.table s id = .ok k ↔ ∃ name, c.name id = .ok name ∧ s.findTable name = some k := by
  rw [table, Reading.bind_ok_iff]
  refine exists_congr fun name => and_congr_right fun _ => ?_
  cases s.findTable name <;> simp

theorem column_ok_iff {id : NameId} {column : Column} :
    c.column s k id = .ok column ↔
      ∃ name, c.name id = .ok name ∧ s.findColumn k name = .ok (some column) := by
  rw [Changeset.column, Reading.bind_ok_iff]
  refine exists_congr fun name => and_congr_right fun _ => ?_
  rw [Reading.bind_ok_iff]
  constructor
  · rintro ⟨found, hfound, h⟩
    cases found with
    | none => cases h
    | some a =>
      cases h
      exact hfound
  · exact fun hfound => ⟨_, hfound, rfl⟩

/-- The object that a reference was resolved to is there. -/
theorem object_holds {ref : ObjectRef} (hs : s.Coherent) (h : c.object s created k ref = .ok j) :
    s.Holds ⟨k, j⟩ := by
  cases ref with
  | created index =>
    obtain ⟨x, -, h⟩ := Reading.bind_ok_iff.mp h
    by_cases hx : x.table = k
    · simp only [hx, ne_eq, not_true_eq_false, if_false] at h
      obtain ⟨rfl, hholds⟩ := existing_ok_iff.mp h
      exact hholds
    · simp [hx] at h
  | key object =>
    obtain ⟨rfl, hholds⟩ := existing_ok_iff.mp h
    exact hholds
  | primaryKey key =>
    obtain ⟨p, -, h⟩ := Reading.bind_ok_iff.mp h
    obtain ⟨name, -, h⟩ := Reading.bind_ok_iff.mp h
    obtain ⟨d, -, h⟩ := Reading.bind_ok_iff.mp h
    cases d with
    | none => cases h
    | some d =>
      obtain ⟨⟨⟩, -, h⟩ := Reading.bind_ok_iff.mp h
      obtain ⟨found, hfound, h⟩ := Reading.bind_ok_iff.mp h
      cases found with
      | none => cases h
      | some i =>
        cases h
        obtain ⟨t, ht, hindex⟩ := Store.findObject_some_iff.mp hfound
        obtain ⟨o, ho, -⟩ := ((hs.table k t ht).indexed p j).mp hindex
        exact ⟨t, ht, FiniteMap.mem_iff_exists.mpr ⟨o, ho⟩⟩

end Changeset

/-- The object of a selected list is there, and so is its column. It holds links exactly if there is
a target, and then they lead to that table. -/
structure Container.Valid (s : Store) (l : Container) (d : ColumnDef) : Prop where
  object : s.containsObject l.table l.object = .ok true
  column : s.column l.table l.column = .ok ⟨l.column, d⟩
  list : d.isList = true
  plain : l.target = none → d.isLinkList = false
  linked : ∀ target, l.target = some target → d.isLinkList = true ∧
    ∃ u, s.tables[target]? = some u ∧ d.linkTarget = some u.name ∧ s.findTable u.name = some target

structure Selection.Valid (s : Store) (sel : Selection) : Prop where
  table : ∀ k, sel.selectedTable = .ok k → ∃ t, s.tables[k]? = some t
  list : ∀ l, sel.container = .ok l → ∃ d, l.Valid s d

theorem Store.column_ok_iff {s : Store} {k : TableKey} {c : ColumnKey} {d : ColumnDef} :
    s.column k c = .ok ⟨c, d⟩ ↔ ∃ t, s.tables[k]? = some t ∧ t.columnDef c = .ok d := by
  simp [Store.column, Store.table_ok_iff]

/-- A column that is found by its name is the one under its key. -/
theorem Store.Coherent.column_of_findColumn {s : Store} {k : TableKey} {name : String}
    {column : Column} (hs : s.Coherent) (h : s.findColumn k name = .ok (some column)) :
    s.column k column.key = .ok ⟨column.key, column.definition⟩ := by
  obtain ⟨t, ht, hcolumn⟩ := Reading.bind_ok_iff.mp h
  have ht := Store.table_ok_iff.mp ht
  have hmem := List.mem_of_find?_eq_some (Reading.pure_ok_iff.mp hcolumn)
  exact Store.column_ok_iff.mpr ⟨t, ht, (hs.table k t ht).columnDef_eq hmem⟩

/-- So is one that an instruction names. -/
theorem Changeset.column_resolved {c : Changeset} {s : Store} {k : TableKey} {id : NameId}
    {column : Column} (hs : s.Coherent) (h : c.column s k id = .ok column) :
    s.column k column.key = .ok ⟨column.key, column.definition⟩ := by
  obtain ⟨name, -, hfound⟩ := column_ok_iff.mp h
  exact hs.column_of_findColumn hfound

namespace Selection
variable {c : Changeset} {s s' : Store} {sel sel' : Selection} {p p' : Progress}

theorem selectedTable_of_container {l : Container} (h : sel.container = .ok l) :
    sel.selectedTable = .ok l.table := by
  cases sel with
  | field t o c =>
    cases h
    rfl
  | linkList t o c target =>
    cases h
    rfl
  | _ => cases h

def Untouched (sel : Selection) : Loss → Prop
  | .nothing => True
  | .table k => sel.selectedTable ≠ .ok k
  | .column k c => ∀ l, sel.container = .ok l → ¬(l.table = k ∧ l.column = c)
  | .object k j => ∀ l, sel.container = .ok l → ¬(l.table = k ∧ l.object = j)

namespace Untouched
variable {loss : Loss} {k : TableKey} {l : Container}

theorem table (h : sel.Untouched loss) (hk : sel.selectedTable = .ok k) : loss ≠ .table k := by
  rintro rfl
  exact h hk

theorem column (h : sel.Untouched loss) (hl : sel.container = .ok l) :
    loss ≠ .column l.table l.column := by
  rintro rfl
  exact h l hl ⟨rfl, rfl⟩

theorem object (h : sel.Untouched loss) (hl : sel.container = .ok l) :
    loss ≠ .object l.table l.object := by
  rintro rfl
  exact h l hl ⟨rfl, rfl⟩

end Untouched

/-- A selection gives up what it names when that is taken away, and else stays as it is. -/
theorem after_cases (sel : Selection) (loss : Loss) :
    sel.after loss = .stale ∨
    (∃ k, sel.after loss = .staleContainer k ∧ sel.selectedTable = .ok k ∧ loss ≠ .table k) ∨
    sel.after loss = sel ∧ sel.Untouched loss := by
  cases loss with
  | nothing => exact .inr (.inr ⟨rfl, trivial⟩)
  | table k =>
    simp only [after, afterTableErased, Untouched]
    cases hsel : sel.selectedTable with
    | error e => exact .inr (.inr ⟨rfl, fun h => by cases h⟩)
    | ok t =>
      by_cases ht : t = k
      · exact .inl (if_pos ht)
      · exact .inr (.inr ⟨if_neg ht, fun h => ht (Except.ok.inj h)⟩)
  | column k c =>
    simp only [after, afterColumnErased, Untouched]
    cases hsel : sel.container with
    | error e => exact .inr (.inr ⟨rfl, fun l hl => by cases hl⟩)
    | ok l =>
      by_cases hl : l.table = k ∧ l.column = c
      · have htable := selectedTable_of_container hsel
        exact .inr (.inl ⟨k, if_pos hl, hl.1 ▸ htable, fun h => by cases h⟩)
      · refine .inr (.inr ⟨if_neg hl, fun l' hl' => ?_⟩)
        cases hl'
        exact hl
  | object k j =>
    simp only [after, afterObjectErased, Untouched]
    cases hsel : sel.container with
    | error e => exact .inr (.inr ⟨rfl, fun l hl => by cases hl⟩)
    | ok l =>
      by_cases hl : l.table = k ∧ l.object = j
      · have htable := selectedTable_of_container hsel
        exact .inr (.inl ⟨k, if_pos hl, hl.1 ▸ htable, fun h => by cases h⟩)
      · refine .inr (.inr ⟨if_neg hl, fun l' hl' => ?_⟩)
        cases hl'
        exact hl

end Selection

namespace Selection
variable {c : Changeset} {s s' : Store} {sel sel' : Selection} {p p' : Progress} {loss : Loss}

/-- A selected list that is not touched stays valid. -/
theorem Untouched.list {l : Container} {d : ColumnDef} (h : sel.Untouched loss)
    (hl : sel.container = .ok l) (hvalid : l.Valid s d) (hs : s.Named) (hs' : s'.Named)
    (hk : s.Keeps loss s') : l.Valid s' d := by
  obtain ⟨t, ht, hdef⟩ := Store.column_ok_iff.mp hvalid.column
  have htable : loss ≠ .table l.table := h.table (selectedTable_of_container hl)
  obtain ⟨t', ht', hkeeps⟩ := hk.table _ t ht htable
  have hobject : s'.Holds ⟨l.table, l.object⟩ := by
    refine hk.holds (Store.containsObject_true_iff.mp hvalid.object) fun htakes => ?_
    cases loss with
    | nothing => exact htakes
    | table k => exact htable (congrArg Loss.table htakes)
    | column k c => exact htakes
    | object k j => exact h l hl ⟨htakes.1.symm, htakes.2.symm⟩
  refine ⟨Store.containsObject_true_iff.mpr hobject,
    Store.column_ok_iff.mpr ⟨t', ht', hkeeps.column _ d hdef (h.column hl)⟩, hvalid.list,
    hvalid.plain, fun target htarget => ?_⟩
  obtain ⟨hlinks, u, hu, hlink, -⟩ := hvalid.linked target htarget
  have hstays : loss ≠ .table target := by
    intro hloss
    -- the list of links would lead from another table to the one that was taken away
    obtain ⟨u', hu', hnone⟩ := Store.linkOrigins_nil_iff.mp (hk.untargeted target hloss)
    cases hu.symm.trans hu'
    have hkey : t.key ≠ target := by
      rw [hs.key_eq _ t ht]
      exact fun heq => htable (heq ▸ hloss)
    exact hnone _ t ht hkey _ (Table.columnDef_ok hdef) hlink
  obtain ⟨w, hw, hkept⟩ := hk.table target u hu hstays
  have hfound : s'.findTable w.name = some target := hs'.findTable_eq_some_iff.mpr ⟨w, hw, rfl⟩
  exact ⟨hlinks, w, hw, hkept.name ▸ hlink, hfound⟩

theorem Valid.after (h : sel.Valid s) (hs : s.Named) (hs' : s'.Named) (hk : s.Keeps loss s') :
    (sel.after loss).Valid s' := by
  have hkept : ∀ k, sel.selectedTable = .ok k → loss ≠ .table k → ∃ t, s'.tables[k]? = some t := by
    intro k hsel hloss
    obtain ⟨t, ht⟩ := h.table k hsel
    obtain ⟨u, hu, -⟩ := hk.table k t ht hloss
    exact ⟨u, hu⟩
  rcases sel.after_cases loss with hstale | ⟨k, hstale, hsel, hloss⟩ | ⟨hsame, huntouched⟩
  · rw [hstale]
    refine ⟨fun j hj => ?_, fun l hl => ?_⟩
    · cases hj
    · cases hl
  · rw [hstale]
    refine ⟨fun j hj => ?_, fun _ hl => by cases hl⟩
    cases hj
    exact hkept k hsel hloss
  · rw [hsame]
    refine ⟨fun k hsel => hkept k hsel (huntouched.table hsel), fun l hl => ?_⟩
    obtain ⟨d, hvalid⟩ := h.list l hl
    exact ⟨d, huntouched.list hl hvalid hs hs' hk⟩

theorem selectTable_ok_iff {id : NameId} :
    selectTable c s id = .ok sel ↔ ∃ k, c.table s id = .ok k ∧ .table k = sel := by
  rw [selectTable, Reading.bind_ok_iff]
  simp only [Changeset.table_ok_iff]
  constructor
  · rintro ⟨name, hname, h⟩
    cases hfound : s.findTable name with
    | none => simp [hfound] at h
    | some k =>
      simp only [hfound, Except.ok.injEq] at h
      exact ⟨k, ⟨name, hname, hfound⟩, h⟩
  · rintro ⟨k, ⟨name, hname, hfound⟩, rfl⟩
    exact ⟨name, hname, by simp [hfound]⟩

theorem selectableColumn_ok_iff {id : NameId} {k : TableKey} {column : Column} :
    selectableColumn c s k id = .ok column ↔ c.column s k id = .ok column := by
  rw [selectableColumn, Changeset.column_ok_iff, Reading.bind_ok_iff]
  refine exists_congr fun name => and_congr_right fun _ => ?_
  rw [Reading.bind_ok_iff]
  constructor
  · rintro ⟨found, hfound, h⟩
    cases found with
    | none => cases h
    | some a =>
      cases h
      exact hfound
  · exact fun hfound => ⟨_, hfound, rfl⟩

/-- What a selected list was resolved from. -/
theorem selectField_ok {created : List Handle} {ref : ObjectRef} {id : NameId}
    (h : sel.selectField c s created ref id = .ok sel') :
    ∃ k column o, sel.selectedTable = .ok k ∧ c.column s k id = .ok column ∧
      column.definition.isList = true ∧ column.definition.isLinkList = false ∧
      c.object s created k ref = .ok o ∧ .field k o column.key = sel' := by
  obtain ⟨k, hk, h⟩ := Reading.bind_ok_iff.mp h
  obtain ⟨column, hcolumn, h⟩ := Reading.bind_ok_iff.mp h
  by_cases hplain : ¬column.definition.isList ∨ column.definition.isLinkList
  · rw [if_pos hplain] at h
    obtain ⟨name, -, h⟩ := Reading.bind_ok_iff.mp h
    cases h
  · rw [if_neg hplain] at h
    obtain ⟨object, hobject, h⟩ := Reading.bind_ok_iff.mp h
    have hlist : column.definition.isList = true ∧ column.definition.isLinkList = false := by
      simpa using hplain
    exact ⟨k, column, object, hk, selectableColumn_ok_iff.mp hcolumn, hlist.1, hlist.2, hobject,
      Reading.pure_ok_iff.mp h⟩

/-- What a selected list of links was resolved from. -/
theorem selectLinkList_ok {created : List Handle} {ref : ObjectRef} {id : NameId}
    (h : sel.selectLinkList c s created ref id = .ok sel') :
    ∃ k column o name target, sel.selectedTable = .ok k ∧ c.column s k id = .ok column ∧
      column.definition.isLinkList = true ∧ column.definition.linkTarget = some name ∧
      s.findTable name = some target ∧ c.object s created k ref = .ok o ∧
      .linkList k o column.key target = sel' := by
  obtain ⟨k, hk, h⟩ := Reading.bind_ok_iff.mp h
  obtain ⟨column, hcolumn, h⟩ := Reading.bind_ok_iff.mp h
  cases hlink : column.definition.linkTarget with
  | none => simp [hlink] at h
  | some name =>
    cases hlist : column.definition.isLinkList with
    | false => simp [hlink, hlist] at h
    | true =>
      cases hfound : s.findTable name with
      | none => simp [hlink, hlist, hfound] at h
      | some target =>
        simp only [hlink, hlist, hfound, pure_bind] at h
        obtain ⟨object, hobject, h⟩ := Reading.bind_ok_iff.mp h
        exact ⟨k, column, object, name, target, hk, selectableColumn_ok_iff.mp hcolumn, hlist,
          hlink, hfound, hobject, Reading.pure_ok_iff.mp h⟩

theorem selectTable_valid {id : NameId} (hs : s.Coherent) (h : selectTable c s id = .ok sel) :
    sel.Valid s := by
  obtain ⟨k, hk, rfl⟩ := selectTable_ok_iff.mp h
  obtain ⟨name, -, hfound⟩ := Changeset.table_ok_iff.mp hk
  obtain ⟨t, ht, -⟩ := hs.named.findTable_eq_some_iff.mp hfound
  refine ⟨fun j hj => ?_, fun _ hl => by cases hl⟩
  cases hj
  exact ⟨t, ht⟩

theorem none_valid : Selection.none.Valid s where
  table _ hk := by cases hk
  list _ hl := by cases hl

/-- A selection of a list is valid if the list is. -/
theorem Valid.of_list {l : Container} {d : ColumnDef} (hsel : sel.container = .ok l)
    (h : l.Valid s d) : sel.Valid s where
  table k hk := by
    cases hk.symm.trans (selectedTable_of_container hsel)
    obtain ⟨t, ht, -⟩ := Store.column_ok_iff.mp h.column
    exact ⟨t, ht⟩
  list l' hl' := by
    cases hsel.symm.trans hl'
    exact ⟨d, h⟩

theorem selectField_valid {created : List Handle} {ref : ObjectRef} {id : NameId} (hs : s.Coherent)
    (h : sel.selectField c s created ref id = .ok sel') : sel'.Valid s := by
  obtain ⟨k, column, o, -, hcolumn, hlist, hplain, hobject, rfl⟩ := selectField_ok h
  have hholds := Changeset.object_holds hs hobject
  exact .of_list rfl ⟨Store.containsObject_true_iff.mpr hholds,
    Changeset.column_resolved hs hcolumn, hlist, fun _ => hplain,
    fun _ htarget => by cases htarget⟩

theorem selectLinkList_valid {created : List Handle} {ref : ObjectRef} {id : NameId}
    (hs : s.Coherent) (h : sel.selectLinkList c s created ref id = .ok sel') : sel'.Valid s := by
  obtain ⟨k, column, o, name, target, -, hcolumn, hlist, hlink, hfound, hobject, rfl⟩ :=
    selectLinkList_ok h
  have hholds := Changeset.object_holds hs hobject
  obtain ⟨u, hu, rfl⟩ := hs.named.findTable_eq_some_iff.mp hfound
  have hislist : column.definition.isList = true := by
    simp only [ColumnDef.isLinkList, decide_eq_true_eq] at hlist
    exact hlist.1
  refine .of_list rfl ⟨Store.containsObject_true_iff.mpr hholds,
    Changeset.column_resolved hs hcolumn, hislist, fun hnone => ?_, fun target' htarget => ?_⟩
  · cases hnone
  · cases htarget
    exact ⟨hlist, u, hu, hlink, hfound⟩

end Selection

namespace Step
variable {c : Changeset} {sel sel' : Selection} {p p' : Progress} {i : Instruction} {e : Effect}

theorem Outcome.selection_valid (h : Outcome c sel p i sel' e p') (hi : i.isSelection = true)
    (hs : p.store.Coherent) : sel'.Valid p.store := by
  cases h with
  | selectTable selected table label => exact Selection.selectTable_valid hs selected
  | selectField selected list label member => exact Selection.selectField_valid hs selected
  | selectLinkList selected list linked label member targetLabel =>
    exact Selection.selectLinkList_valid hs selected
  | _ => cases hi

/-- A successful step keeps the store coherent, and leaves a valid selection. -/
theorem Outcome.valid (h : Outcome c sel p i sel' e p') (hs : p.store.Coherent)
    (hsel : sel.Valid p.store) : p'.store.Coherent ∧ sel'.Valid p'.store := by
  rcases h.call with ⟨hi, rfl⟩ | ⟨call, a, hcall⟩
  · exact ⟨hs, h.selection_valid hi hs⟩
  · have hs' : p'.store.Coherent := (Store.Call.change hcall.run).coherent hs
    have hkeeps := Store.Call.keeps hcall.run
    rw [hcall.selection]
    exact ⟨hs', hsel.after hs.named hs'.named hkeeps⟩

end Step

namespace Replay
variable {c : Changeset} {sel : Selection} {p : Progress}

/-- What a changeset comes to that goes on after failures: each instruction is under the selection
that the ones before it left. -/
def follow (c : Changeset) (sel : Selection) (p : Progress) :
    List Instruction → Selection × Progress
  | [] => (sel, p)
  | i :: rest => follow c (attempt c sel i p).2.1 (attempt c sel i p).2.2 rest

theorem attempt_valid (i : Instruction) (hs : p.store.Coherent) (hsel : sel.Valid p.store) :
    (attempt c sel i p).2.2.store.Coherent ∧
      (attempt c sel i p).2.1.Valid (attempt c sel i p).2.2.store := by
  cases hstep : Step.dispatch c sel i p with
  | error cause p' =>
    cases Step.dispatch_atomic c sel i p cause p' hstep
    simpa only [attempt, hstep] using ⟨hs, hsel⟩
  | ok r p' =>
    obtain ⟨sel', e⟩ := r
    simpa only [attempt, hstep] using (Step.dispatch_outcome hstep).valid hs hsel

theorem follow_valid (l : List Instruction) (hs : p.store.Coherent) (hsel : sel.Valid p.store) :
    (follow c sel p l).2.store.Coherent ∧ (follow c sel p l).1.Valid (follow c sel p l).2.store := by
  induction l generalizing sel p with
  | nil => exact ⟨hs, hsel⟩
  | cons i rest ih =>
    obtain ⟨hs', hsel'⟩ := attempt_valid i hs hsel
    exact ih hs' hsel'

/-- Whatever a changeset does, and whatever was done to the store before, the selection names only
what is there. -/
theorem follow_selection_valid (v : SchemaVersion) (turns : List Turn) (c : Changeset)
    (l : List Instruction) :
    let reached := follow c .none ⟨Turn.afterAll (.new v) turns, []⟩ l
    reached.1.Valid reached.2.store := by
  have hs : (Turn.afterAll (.new v) turns).Coherent := Turn.afterAll_coherent (.new v)
  exact (follow_valid l hs Selection.none_valid).2

end Replay
end ChangesetReplay
