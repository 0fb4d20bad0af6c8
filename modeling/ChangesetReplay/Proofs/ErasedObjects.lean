import ChangesetReplay.Proofs.LinkIntegrity
import ChangesetReplay.Proofs.StoreHistories

/-! # Erased objects

Erasing an object takes it from its table and from the index of that table, and takes the links to
it from all tables. A link is only a number: so the columns in which it is looked for are those that
lead to the table of the object, and in all others the same number stays. What a store becomes is
described part by part, without saying how it is computed, and no two stores fit the description. -/

namespace ChangesetReplay

/-- A relation between what may be missing that is given by a function. -/
theorem rel_iff_map {α β : Type} {R : α → β → Prop} {f : α → β} {a : Option α} {b : Option β}
    (h : ∀ x, a = some x → ∀ y, R x y ↔ f x = y) : Option.Rel R a b ↔ a.map f = b := by
  constructor
  · rintro (@⟨x, y, hxy⟩ | _)
    · exact congrArg some ((h x rfl y).mp hxy)
    · rfl
  · rintro rfl
    cases a with
    | none => exact .none
    | some x => exact .some ((h x rfl (f x)).mpr rfl)

/-- What a cell becomes when the object `x` is erased, to which its links may lead. -/
inductive Cell.Forgets (x : ObjectKey) : Cell → Cell → Prop where
  | link : Forgets x (.scalar (.link x)) (.scalar .null)
  | scalar {v : Value} (other : v ≠ .link x) : Forgets x (.scalar v) (.scalar v)
  | list (l : List Value) : Forgets x (.list l) (.list (l.filter (· ≠ .link x)))

theorem Cell.forgets_iff {x : ObjectKey} (c c' : Cell) : c.Forgets x c' ↔ c.withoutLink x = c' := by
  constructor
  · rintro (_ | ⟨other⟩ | l)
    · exact congrArg Cell.scalar (if_pos rfl)
    · exact congrArg Cell.scalar (if_neg other)
    · rfl
  · rintro rfl
    cases c with
    | list l => exact .list l
    | scalar v =>
      by_cases hv : v = .link x
      · subst hv
        simpa [withoutLink] using Forgets.link
      · simpa [withoutLink, hv] using Forgets.scalar hv

namespace Object
variable {leads : ColumnKey → Prop} {columns : List ColumnKey} {x : ObjectKey}

/-- What an object becomes when `x` is erased, to which its links in some columns lead. -/
structure Forgets (leads : ColumnKey → Prop) (x : ObjectKey) (o o' : Object) : Prop where
  rest : o' = { o with fields := o'.fields }
  cell : ∀ c : ColumnKey, leads c → Option.Rel (Cell.Forgets x) o.fields[c]? o'.fields[c]?
  otherCell : ∀ c : ColumnKey, ¬leads c → o'.fields[c]? = o.fields[c]?

def withoutLinks (columns : List ColumnKey) (x : ObjectKey) (o : Object) : Object :=
  { o with fields := o.fields.map fun c cell => if c ∈ columns then cell.withoutLink x else cell }

theorem forgets_iff (h : ∀ c, leads c ↔ c ∈ columns) (o o' : Object) :
    o.Forgets leads x o' ↔ o.withoutLinks columns x = o' := by
  have hcell : ∀ c : ColumnKey, Option.Rel (Cell.Forgets x) o.fields[c]? o'.fields[c]? ↔
      (o.fields[c]?).map (·.withoutLink x) = o'.fields[c]? := fun c =>
    rel_iff_map fun cell _ => cell.forgets_iff
  constructor
  · intro ho
    have hfields : (o.withoutLinks columns x).fields = o'.fields := by
      refine Std.ExtTreeMap.ext_getElem? fun c => ?_
      rw [withoutLinks, Std.ExtTreeMap.getElem?_map]
      by_cases hc : c ∈ columns
      · simpa [hc] using (hcell c).mp (ho.cell c ((h c).mpr hc))
      · simpa [hc] using (ho.otherCell c (mt (h c).mp hc)).symm
    rw [ho.rest, ← hfields, withoutLinks]
  · rintro rfl
    refine ⟨rfl, fun c hc => (hcell c).mpr ?_, fun c hc => ?_⟩
    · simp [withoutLinks, (h c).mp hc]
    · simp [withoutLinks, mt (h c).mpr hc]

end Object

namespace Table
variable {t u : Table} {target : String} {k : TableKey} {h : Handle} {x : ObjectKey}

def LeadsTo (t : Table) (target : String) (c : ColumnKey) : Prop :=
  ∃ d, t.columnDef c = .ok d ∧ d.linkTarget = some target

theorem Coherent.leadsTo_iff (ht : t.Coherent) (c : ColumnKey) :
    t.LeadsTo target c ↔ c ∈ t.linkColumns target := by
  rw [mem_linkColumns]
  constructor
  · rintro ⟨d, hd, hlink⟩
    exact ⟨⟨c, d⟩, columnDef_ok hd, hlink, rfl⟩
  · rintro ⟨a, ha, hlink, rfl⟩
    exact ⟨a.definition, ht.columnDef_eq ha, hlink⟩

/-- What the table under the key `k` becomes when `h` is erased, an object of the table `target`.
Name, columns, counters and key definition are the same. -/
structure Forgets (target : String) (h : Handle) (k : TableKey) (t u : Table) : Prop where
  rest : u = { t with objects := u.objects, keyIndex := u.keyIndex }
  gone : ∀ x, h = ⟨k, x⟩ → x ∉ u.objects
  object : ∀ x : ObjectKey, h ≠ ⟨k, x⟩ →
    Option.Rel (Object.Forgets (t.LeadsTo target) h.object) t.objects[x]? u.objects[x]?
  index : ∀ (p : PrimaryKey) (x : ObjectKey),
    u.keyIndex[p]? = some x ↔ t.keyIndex[p]? = some x ∧ h ≠ ⟨k, x⟩

def without (t : Table) (k : TableKey) (h : Handle) : Table :=
  if h.table = k then t.dropObject h.object else t

theorem without_rest : t.without k h =
    { t with objects := (t.without k h).objects, keyIndex := (t.without k h).keyIndex } := by
  unfold without
  split <;> rfl

theorem objects_without {o : Object} :
    (t.without k h).objects[x]? = some o ↔ t.objects[x]? = some o ∧ h ≠ ⟨k, x⟩ := by
  unfold without
  by_cases hk : h.table = k
  · subst hk
    rw [if_pos rfl, objects_dropObject, and_comm]
    have hne : h ≠ ⟨h.table, x⟩ ↔ h.object ≠ x := by
      cases h
      simp
    rw [hne]
  · have hne : h ≠ ⟨k, x⟩ := fun heq => hk (congrArg Handle.table heq)
    simp [hk, hne]

theorem objects_without_of_ne (hne : h ≠ ⟨k, x⟩) :
    (t.without k h).objects[x]? = t.objects[x]? := by
  refine Option.ext fun o => ?_
  rw [objects_without]
  exact and_iff_left hne

theorem objects_without_self (heq : h = ⟨k, x⟩) : (t.without k h).objects[x]? = none := by
  rw [Option.eq_none_iff_forall_not_mem]
  exact fun o ho => (objects_without.mp ho).2 heq

theorem Indexed.keyIndex_without (ht : t.Indexed) {p : PrimaryKey} :
    (t.without k h).keyIndex[p]? = some x ↔ t.keyIndex[p]? = some x ∧ h ≠ ⟨k, x⟩ := by
  have hwithout : (t.without k h).Indexed := by
    unfold without
    split
    · exact ht.dropObject h.object
    · exact ht
  rw [hwithout p x, ht p x]
  constructor
  · rintro ⟨o, ho, hp⟩
    obtain ⟨ho, hne⟩ := objects_without.mp ho
    exact ⟨⟨o, ho, hp⟩, hne⟩
  · rintro ⟨⟨o, ho, hp⟩, hne⟩
    exact ⟨o, objects_without.mpr ⟨ho, hne⟩, hp⟩

theorem Coherent.forgets_iff (ht : t.Coherent) (u : Table) :
    t.Forgets target h k u ↔ (t.without k h).dropLinks target h.object = u := by
  have hcolumns : (t.without k h).linkColumns target = t.linkColumns target := by
    rw [without_rest, linkColumns, linkColumns]
  have hobjects : ∀ x : ObjectKey, ((t.without k h).dropLinks target h.object).objects[x]? =
      ((t.without k h).objects[x]?).map (Object.withoutLinks (t.linkColumns target) h.object) := by
    intro x
    rw [objects_dropLinks, hcolumns]
    rfl
  have hobject : ∀ x : ObjectKey,
      Option.Rel (Object.Forgets (t.LeadsTo target) h.object) t.objects[x]? u.objects[x]? ↔
        (t.objects[x]?).map (Object.withoutLinks (t.linkColumns target) h.object) =
          u.objects[x]? :=
    fun x => rel_iff_map fun o _ => o.forgets_iff ht.leadsTo_iff
  have hrest : (t.without k h).dropLinks target h.object =
      { t with
        objects := ((t.without k h).dropLinks target h.object).objects
        keyIndex := (t.without k h).keyIndex } := by
    unfold without
    split <;> rfl
  constructor
  · intro hu
    rw [hrest, hu.rest]
    congr 1
    · refine Std.ExtTreeMap.ext_getElem? fun x => ?_
      rw [hobjects]
      by_cases hx : h = ⟨k, x⟩
      · simpa [objects_without_self hx] using hu.gone x hx
      · rw [objects_without_of_ne hx]
        exact (hobject x).mp (hu.object x hx)
    · refine Std.ExtTreeMap.ext_getElem? fun p => Option.ext fun x => ?_
      exact ht.indexed.keyIndex_without.trans (hu.index p x).symm
  · rintro rfl
    refine ⟨hrest, fun x hx => ?_, fun x hx => (hobject x).mpr ?_, fun p x => ?_⟩
    · simpa [objects_without_self hx] using hobjects x
    · rw [hobjects, objects_without_of_ne hx]
    · exact ht.indexed.keyIndex_without

end Table

namespace Store
variable {s s' : Store} {k : TableKey} {t : Table} {x : ObjectKey}

/-- What a store becomes when the object `h` is erased, whose table is called `target`. -/
structure Forgets (target : String) (h : Handle) (s s' : Store) : Prop where
  rest : s' = { s with tables := s'.tables }
  table : ∀ k : TableKey, Option.Rel (Table.Forgets target h k) s.tables[k]? s'.tables[k]?

theorem Coherent.forgets_iff (hs : s.Coherent) (ht : s.tables[k]? = some t) (s' : Store) :
    s.Forgets t.name ⟨k, x⟩ s' ↔ (s.putTable k (t.dropObject x)).dropLinks t.name x = s' := by
  have hwithout : ∀ j : TableKey, (s.putTable k (t.dropObject x)).tables[j]? =
      (s.tables[j]?).map (·.without j ⟨k, x⟩) := by
    intro j
    by_cases hj : k = j
    · subst hj
      rw [tables_putTable_self, ht, Option.map_some, Table.without, if_pos rfl]
    · have hsame : (s.putTable k (t.dropObject x)).tables[j]? = s.tables[j]? :=
        Option.ext fun u => by simp [tables_putTable, hj]
      have hid : (fun u : Table => u.without j ⟨k, x⟩) = id := by
        funext u
        exact if_neg hj
      rw [hsame, hid, Option.map_id, id_eq]
  have hafter : ∀ j : TableKey,
      ((s.putTable k (t.dropObject x)).dropLinks t.name x).tables[j]? =
        (s.tables[j]?).map fun u => (u.without j ⟨k, x⟩).dropLinks t.name x := by
    intro j
    rw [tables_dropLinks, hwithout, Option.map_map]
    rfl
  have htable : ∀ j : TableKey,
      Option.Rel (Table.Forgets t.name ⟨k, x⟩ j) s.tables[j]? s'.tables[j]? ↔
        (s.tables[j]?).map (fun u => (u.without j ⟨k, x⟩).dropLinks t.name x) = s'.tables[j]? :=
    fun j => rel_iff_map fun u hu => (hs.table j u hu).forgets_iff
  constructor
  · intro h
    have htables : ((s.putTable k (t.dropObject x)).dropLinks t.name x).tables = s'.tables :=
      Std.ExtTreeMap.ext_getElem? fun j => (hafter j).trans ((htable j).mp (h.table j))
    rw [h.rest, ← htables]
    rfl
  · rintro rfl
    exact ⟨rfl, fun j => (htable j).mpr (hafter j).symm⟩

/-- In every store that comes of an empty one, an object of a table can be erased. The store then is
the only one that the erasure of this object describes, and no link to the object is left in it. -/
theorem object_erased_exactly (v : SchemaVersion) (turns : List Turn) (k : TableKey) (t : Table)
    (x : ObjectKey) (ht : (Turn.afterAll (.new v) turns).tables[k]? = some t)
    (hx : x ∈ t.objects) :
    ∃ s', eraseObject k x (Turn.afterAll (.new v) turns) = .ok () s' ∧
      (∀ r, (Turn.afterAll (.new v) turns).Forgets t.name ⟨k, x⟩ r ↔ r = s') ∧
      ∀ (j : TableKey) (u : Table), s'.tables[j]? = some u → ¬u.LinksTo t.name x := by
  have hs : (Turn.afterAll (.new v) turns).Coherent := Turn.afterAll_coherent (Coherent.new v)
  refine ⟨_, eraseObject_ok_iff.mpr ⟨t, ht, hx, rfl⟩, fun r => ?_, fun j u hu hlinks => ?_⟩
  · exact (hs.forgets_iff ht r).trans eq_comm
  · rw [tables_dropLinks, Option.map_eq_some_iff] at hu
    obtain ⟨w, -, rfl⟩ := hu
    exact hlinks.of_dropLinks.2 rfl rfl

/-- Two teams, the second of which comes of the first, and a member who is her own mentor and whose
former teams repeat. -/
def mergedTeams : List Turn :=
  [.operate (.call (.addTable "teams" none)),
    .operate (.call (.addTable "people" (some ⟨"id", .int, false⟩))),
    .operate (.call (.addColumn ⟨0⟩ (.linkTo "origin" "teams"))),
    .operate (.call (.addColumn ⟨1⟩ (.linksTo "former" "teams"))),
    .operate (.call (.addColumn ⟨1⟩ (.linkTo "mentor" "people"))),
    .operate (.call (.createObject ⟨0⟩ none)), .operate (.call (.createObject ⟨0⟩ none)),
    .operate (.call (.createObject ⟨1⟩ (some (.int 7)))),
    .operate (.call (.setScalar ⟨⟨0⟩, ⟨1⟩, ⟨0⟩⟩ (.link ⟨0⟩))),
    .operate (.call (.setScalar ⟨⟨1⟩, ⟨0⟩, ⟨2⟩⟩ (.link ⟨0⟩))),
    .operate (.call (.listInsert ⟨⟨1⟩, ⟨0⟩, ⟨1⟩⟩ 0 (.link ⟨0⟩))),
    .operate (.call (.listInsert ⟨⟨1⟩, ⟨0⟩, ⟨1⟩⟩ 0 (.link ⟨1⟩))),
    .operate (.call (.listInsert ⟨⟨1⟩, ⟨0⟩, ⟨1⟩⟩ 0 (.link ⟨0⟩)))]

theorem object_erased_exactly_teams :
    ∃ s', eraseObject ⟨0⟩ ⟨0⟩ (Turn.afterAll (.new 1) mergedTeams) = .ok () s' ∧
      (Turn.afterAll (.new 1) mergedTeams).Forgets "teams" ⟨⟨0⟩, ⟨0⟩⟩ s' ∧
      s'.scalar ⟨⟨0⟩, ⟨1⟩, ⟨0⟩⟩ = .ok .null ∧ s'.items ⟨⟨1⟩, ⟨0⟩, ⟨1⟩⟩ = .ok [.link ⟨1⟩] ∧
      s'.scalar ⟨⟨1⟩, ⟨0⟩, ⟨2⟩⟩ = .ok (.link ⟨0⟩) := by
  have hname : (Turn.afterAll (.new 1) mergedTeams).tableName ⟨0⟩ = .ok "teams" := by decide +kernel
  have hmember : (Turn.afterAll (.new 1) mergedTeams).containsObject ⟨0⟩ ⟨0⟩ = .ok true := by
    decide +kernel
  obtain ⟨t, ht, hteams⟩ := tableName_ok_iff.mp hname
  have hx : ⟨0⟩ ∈ t.objects := by
    obtain ⟨u, hu, hmem⟩ := containsObject_ok_iff.mp hmember
    cases ht.symm.trans hu
    simpa using hmem
  obtain ⟨s', hrun, honly, -⟩ := object_erased_exactly 1 mergedTeams ⟨0⟩ t ⟨0⟩ ht hx
  have hafter : ∀ {s s' : Store}, eraseObject ⟨0⟩ ⟨0⟩ s = .ok () s' →
      Turn.after s (.operate (.call (.eraseObject ⟨0⟩ ⟨0⟩))) = s' := fun h =>
    Turn.after_call (ActionLaws.map_ok_iff.mpr ⟨(), h, rfl⟩)
  have honly : (Turn.afterAll (.new 1) mergedTeams).Forgets "teams" ⟨⟨0⟩, ⟨0⟩⟩ s' := by
    rw [← hteams]
    exact (honly s').mpr rfl
  refine ⟨s', hrun, honly, ?_⟩
  rw [← hafter hrun]
  decide +kernel

end Store
end ChangesetReplay
