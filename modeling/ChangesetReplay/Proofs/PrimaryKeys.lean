import ChangesetReplay.Proofs.StoreHistories

/-! # Primary keys

An object is found under its primary key and under no other, it holds the key in the key column too,
and it keeps both for as long as it is there. This is so in every store that an empty one can come
to. -/

namespace ChangesetReplay

def Table.keyCell? (t : Table) (j : ObjectKey) : Option Cell := do t.value? j (← t.keyDef).column

/-- In a coherent table the key cell of an object is given by its primary key. -/
theorem Table.Coherent.keyCell?_eq {t : Table} (h : t.Coherent) {j : ObjectKey} {o : Object}
    (ho : t.objects[j]? = some o) :
    t.keyCell? j = t.keyDef.bind fun _ => o.primaryKey.map fun p => .scalar p.toValue := by
  cases hd : t.keyDef with
  | none => simp [keyCell?, hd]
  | some d =>
    obtain ⟨c, hc, hname, hkeyed⟩ := h.keyed d hd
    obtain ⟨p, hp, -, hfield⟩ := hkeyed j o ho
    have hcolumn : t.column? d.column = some c := hname ▸ h.column?_eq hc
    simp [keyCell?, hd, value?, hcolumn, ho, hfield, hp]

namespace Store

structure PrimaryKeysAgree (s : Store) : Prop where
  found : ∀ (k : TableKey) (t : Table), s.tables[k]? = some t → ∀ p, ∃ found,
    s.findObject k p = .ok found ∧
      ∀ j, found = some j ↔ ∃ o, t.objects[j]? = some o ∧ o.primaryKey = some p
  unique : ∀ (k : TableKey) (t : Table), s.tables[k]? = some t → ∀ (i j : ObjectKey) (a b : Object) p,
    t.objects[i]? = some a → t.objects[j]? = some b → a.primaryKey = some p →
      b.primaryKey = some p → i = j
  keyed : ∀ (k : TableKey) (t : Table), s.tables[k]? = some t → ∀ d, t.keyDef = some d →
    ∃ c, s.findColumn k d.column = .ok (some c) ∧
      ∀ (j : ObjectKey) (o : Object), t.objects[j]? = some o → ∃ p, o.primaryKey = some p ∧
        d.check t.name (some p) = .ok () ∧ s.scalar ⟨k, j, c.key⟩ = .ok p.toValue
  unkeyed : ∀ (k : TableKey) (t : Table), s.tables[k]? = some t → t.keyDef = none →
    ∀ (j : ObjectKey) (o : Object), t.objects[j]? = some o → o.primaryKey = none

theorem Coherent.primaryKeysAgree {s : Store} (h : s.Coherent) : s.PrimaryKeysAgree where
  found k t ht p := by
    exact ⟨t.find? p, table_bind_of_tables ht, fun j => (h.table k t ht).indexed p j⟩
  unique k t ht i j a b p ha hb hp hq := (h.table k t ht).indexed.unique ha hb hp hq
  keyed k t ht d hd := by
    have hcoherent := h.table k t ht
    obtain ⟨c, hc, hname, hkeyed⟩ := hcoherent.keyed d hd
    have hcolumn : t.column? d.column = some c := hname ▸ hcoherent.column?_eq hc
    refine ⟨c, by simp [findColumn, table_ok_iff.mpr ht, hcolumn], fun j o ho => ?_⟩
    obtain ⟨p, hp, hcheck, hfield⟩ := hkeyed j o ho
    exact ⟨p, hp, hcheck, scalar_ok_iff.mpr ⟨t, _, o, ht, hcoherent.columnDef_eq hc, ho, hfield⟩⟩
  unkeyed k t ht := (h.table k t ht).unkeyed

structure KeyData where
  primaryKey : Option PrimaryKey
  cell : Option Cell
deriving DecidableEq

def keyData? (s : Store) (x : Handle) : Option KeyData := do
  let t ← s.tables[x.table]?
  let o ← t.objects[x.object]?
  return ⟨o.primaryKey, t.keyCell? x.object⟩

variable {s s' : Store} {x : Handle} {held : KeyData}

theorem keyData?_eq_some_iff : s.keyData? x = some held ↔ ∃ t o, s.tables[x.table]? = some t ∧
    t.objects[x.object]? = some o ∧ ⟨o.primaryKey, t.keyCell? x.object⟩ = held := by
  simp [keyData?, Option.bind_eq_some_iff]

/-- An object that is not taken away keeps its primary key, and its key cell with it. -/
theorem Keeps.keyData? {loss : Loss} (h : s.Keeps loss s') (hs : s.Coherent) (hs' : s'.Coherent)
    (hx : s.keyData? x = some held) (hnot : ¬loss.Takes x) : s'.keyData? x = some held := by
  obtain ⟨t, o, ht, ho, rfl⟩ := keyData?_eq_some_iff.mp hx
  obtain ⟨u, hu, hkeeps⟩ := h.table _ t ht fun heq => hnot (heq ▸ rfl)
  obtain ⟨o', ho', hkey⟩ := hkeeps.object _ o ho fun heq => hnot (heq ▸ ⟨rfl, rfl⟩)
  have hcell : u.keyCell? x.object = t.keyCell? x.object := by
    rw [(hs.table _ t ht).keyCell?_eq ho, (hs'.table _ u hu).keyCell?_eq ho', hkeeps.keyDef, hkey]
  exact keyData?_eq_some_iff.mpr ⟨u, o', hu, ho', by rw [hkey, hcell]⟩

theorem keyData?_of_spare {turns : List Turn} (hs : s.Coherent) (hx : s.keyData? x = some held)
    (hspare : Turn.Spare s x turns) : (Turn.afterAll s turns).keyData? x = some held := by
  induction turns generalizing s with
  | nil => exact hx
  | cons turn rest ih =>
    obtain ⟨hnot, hrest⟩ := hspare
    obtain ⟨loss, hkeeps, htakes⟩ := Turn.keeps hs turn
    have hafter : (turn.after s).Coherent := Turn.after_coherent hs
    have hheld := hkeeps.keyData? hs hafter hx fun htaken => hnot ((htakes x).mp htaken)
    exact ih hafter hheld hrest

/-- In every store that comes of an empty one, primary keys, indexes and key columns agree; and as
long as an object is not erased, what is held of its primary key stays the same. -/
theorem primary_keys_agree (v : SchemaVersion) (earlier later : List Turn) :
    (Turn.afterAll (.new v) earlier).PrimaryKeysAgree ∧
      ∀ x held, (Turn.afterAll (.new v) earlier).keyData? x = some held →
        Turn.Spare (Turn.afterAll (.new v) earlier) x later →
          (Turn.afterAll (.new v) (earlier ++ later)).keyData? x = some held := by
  have hs : (Turn.afterAll (.new v) earlier).Coherent := Turn.afterAll_coherent (Coherent.new v)
  refine ⟨hs.primaryKeysAgree, fun x held hx hspare => ?_⟩
  rw [Turn.afterAll_append]
  exact keyData?_of_spare hs hx hspare

/-- A re-import, and attempts on the member of the team: what he links to is erased, a column of his
is erased, and his number is to be changed, which is refused. -/
def teamTurns : List Turn :=
  [.restore .direct, .operate (.call (.eraseObject ⟨0⟩ ⟨0⟩)), .operate (.call (.eraseColumn ⟨1⟩ ⟨2⟩)),
    .operate (.call (.setScalar ⟨⟨1⟩, ⟨0⟩, ⟨0⟩⟩ (.int 8)))]

theorem primary_keys_agree_team :
    (Turn.afterAll (.new 1) (teamOperations.map .operate)).keyData? ⟨⟨1⟩, ⟨0⟩⟩ =
        some ⟨some (.int 7), some (.scalar (.int 7))⟩ ∧
      Turn.Spare teamStore ⟨⟨1⟩, ⟨0⟩⟩ teamTurns ∧
      (Turn.afterAll (.new 1) (teamOperations.map .operate ++ teamTurns)).keyData? ⟨⟨1⟩, ⟨0⟩⟩ =
        some ⟨some (.int 7), some (.scalar (.int 7))⟩ := by
  have hstart : Turn.afterAll (.new 1) (teamOperations.map .operate) = teamStore := by rfl
  have hspare : Turn.Spare teamStore ⟨⟨1⟩, ⟨0⟩⟩ teamTurns := by
    refine ⟨id, fun h => ?_, fun h => h.1, fun h => h.1, trivial⟩
    exact absurd h.1.1 (by decide)
  have hheld : teamStore.keyData? ⟨⟨1⟩, ⟨0⟩⟩ =
      some ⟨some (.int 7), some (.scalar (.int 7))⟩ := by rfl
  refine ⟨hstart.symm ▸ hheld, hspare, ?_⟩
  exact (primary_keys_agree 1 (teamOperations.map .operate) teamTurns).2 ⟨⟨1⟩, ⟨0⟩⟩ _
    (hstart.symm ▸ hheld) (hstart.symm ▸ hspare)

end Store
end ChangesetReplay
