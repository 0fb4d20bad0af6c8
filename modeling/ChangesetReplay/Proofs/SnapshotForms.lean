import ChangesetReplay.Proofs.SnapshotConsistency
import ChangesetReplay.Proofs.ValueForms

/-! # Forms of snapshots read back

What is written for a snapshot is read as the same snapshot, except that its tables are without
their indexes of primary keys, which are not written. -/

namespace ChangesetReplay

theorem TableKey.ofJson?_toJson (k : TableKey) : ofJson? k.toJson = some k := by
  simp [ofJson?, toJson]

theorem ColumnKey.ofJson?_toJson (k : ColumnKey) : ofJson? k.toJson = some k := by
  simp [ofJson?, toJson]

namespace Cell

def ReadsBack (c : Cell) : Prop := ∀ v ∈ c.values, v.ReadsBack

instance (c : Cell) : Decidable c.ReadsBack :=
  inferInstanceAs (Decidable (∀ v ∈ c.values, v.ReadsBack))

theorem tagged?_withKind (kind : String) (content : Json) (reading : Json.Reading) :
    (withKind kind content).tagged? tagging reading = some ⟨kind, some content, reading.inner⟩ :=
  Json.tagged?_pair (by decide : tagging.tag ≠ tagging.content) reading kind content

theorem ofJson?_scalar (v : Value) (reading : Json.Reading) :
    ofJson? reading (scalar v).toJson = (Value.ofJson? reading.inner v.toJson).map scalar := by
  simp [ofJson?, toJson, tagged?_withKind]

theorem ofJson?_list (items : List Value) (reading : Json.Reading) :
    ofJson? reading (list items).toJson = ((Json.array (items.map (·.toJson))).list?
      (Value.ofJson? reading.inner.inner)).map list := by
  simp [ofJson?, toJson, tagged?_withKind]

theorem ofJson?_toJson {c : Cell} (h : c.ReadsBack) (reading : Json.Reading) :
    ofJson? reading c.toJson = some c := by
  cases c with
  | scalar v =>
    rw [ofJson?_scalar, Value.ofJson?_toJson (h v (List.mem_singleton.mpr rfl)), Option.map_some]
  | list items =>
    have hitems : (Json.array (items.map (·.toJson))).list? (Value.ofJson? reading.inner.inner) =
        some (items.map id) :=
      Json.list?_map fun v hv => Value.ofJson?_toJson (h v hv) reading.inner.inner
    rw [ofJson?_list, hitems, List.map_id, Option.map_some]

theorem wellFormed_toJson (c : Cell) : c.toJson.WellFormed := by
  cases c with
  | scalar v => simp [toJson, withKind, v.wellFormed_toJson]
  | list items =>
    have hitems : (Json.array (items.map (·.toJson))).WellFormed :=
      Json.wellFormed_map fun v _ => v.wellFormed_toJson
    simp [toJson, withKind, hitems]

end Cell

namespace Column

theorem ofJson?_toJson (c : Column) (reading : Json.Reading) :
    ofJson? reading c.toJson = some c := by
  simp [ofJson?, toJson, Json.fields?_ofMembers, Json.lookup_cons, ColumnKey.ofJson?_toJson,
    ColumnDef.ofJson?_toJson]

theorem wellFormed_toJson (c : Column) : c.toJson.WellFormed := by
  simp [toJson, ColumnKey.toJson, c.definition.wellFormed_toJson]

end Column

namespace Object

def ReadsBack (o : Object) : Prop :=
  ∀ (k : ColumnKey) (c : Cell), o.fields[k]? = some c → c.ReadsBack

instance (o : Object) : Decidable o.ReadsBack :=
  decidable_of_iff (∀ e ∈ o.fields.toList, e.2.ReadsBack) FiniteMap.forall_toList_iff

/-- All of an object but its fields is read as it was. -/
theorem ofJson?_toJson_eq (o : Object) (reading : Json.Reading) :
    ofJson? reading o.toJson = ((Json.ofMap (·.index.toNat) (·.toJson) o.fields).map?
      ColumnKey.ofJson? (Cell.ofJson? reading.inner.inner)).map ({ o with fields := · }) := by
  obtain ⟨key, primaryKey, fields⟩ := o
  cases primaryKey with
  | none =>
    simp [ofJson?, toJson, Json.fields?_ofMembers, Json.lookup_cons, Json.getOr]
    exact Option.map_eq_bind.symm
  | some p =>
    have hp : Json.optional? (PrimaryKey.ofJson? reading.inner) p.toJson = some (some p) :=
      Json.optional?_of_some p.toJson_ne_null (p.ofJson?_toJson reading.inner)
    simp [ofJson?, toJson, Json.fields?_ofMembers, Json.lookup_cons, Json.getOr, hp]
    exact Option.map_eq_bind.symm

theorem ofJson?_toJson {o : Object} (h : o.ReadsBack) (reading : Json.Reading) :
    ofJson? reading o.toJson = some o := by
  have hfields : (Json.ofMap (·.index.toNat) (·.toJson) o.fields).map? ColumnKey.ofJson?
      (Cell.ofJson? reading.inner.inner) = some o.fields :=
    Json.map?_ofMap ColumnKey.ofJson?_toJson fun k c hc =>
      Cell.ofJson?_toJson (h k c hc) reading.inner.inner
  rw [ofJson?_toJson_eq, hfields, Option.map_some]

theorem wellFormed_toJson (o : Object) : o.toJson.WellFormed := by
  obtain ⟨key, primaryKey, fields⟩ := o
  have hfields : (Json.ofMap (·.index.toNat) (·.toJson) fields).WellFormed :=
    Json.wellFormed_ofMap fun _ c _ => c.wellFormed_toJson
  cases primaryKey with
  | none => simp [toJson, hfields]
  | some p => simp [toJson, hfields, p.wellFormed_toJson]

end Object

namespace Table

def ReadsBack (t : Table) : Prop :=
  ∀ (k : ObjectKey) (o : Object), t.objects[k]? = some o → o.ReadsBack

instance (t : Table) : Decidable t.ReadsBack :=
  decidable_of_iff (∀ e ∈ t.objects.toList, e.2.ReadsBack) FiniteMap.forall_toList_iff

/-- What is written of a table: all but its index of primary keys. -/
def written (t : Table) : Table := { t with keyIndex := ∅ }

/-- All of a table that is written, but for its objects, is read as it was. -/
theorem ofJson?_toJson_eq (t : Table) (reading : Json.Reading) :
    ofJson? reading t.toJson = ((Json.ofMap (·.index.toNat) (·.toJson) t.objects).map?
      ObjectKey.ofJson? (Object.ofJson? reading.inner.inner)).map
        ({ t.written with objects := · }) := by
  obtain ⟨key, name, keyDef, columns, objects, nextColumn, nextObject, keyIndex⟩ := t
  have hcolumns : (Json.array (columns.map (·.toJson))).list? (Column.ofJson? reading.inner.inner) =
      some (columns.map id) :=
    Json.list?_map fun c _ => c.ofJson?_toJson reading.inner.inner
  cases keyDef with
  | none =>
    simp [ofJson?, toJson, Json.fields?_ofMembers, Json.lookup_cons, Json.getOr,
      TableKey.ofJson?_toJson, hcolumns, written]
    exact Option.map_eq_bind.symm
  | some d =>
    have hd : Json.optional? (KeyDef.ofJson? reading.inner) d.toJson = some (some d) :=
      Json.optional?_of_some (Json.ofMembers_ne_null _) (d.ofJson?_toJson reading.inner)
    simp [ofJson?, toJson, Json.fields?_ofMembers, Json.lookup_cons, Json.getOr,
      TableKey.ofJson?_toJson, hcolumns, hd, written]
    exact Option.map_eq_bind.symm

theorem ofJson?_toJson {t : Table} (h : t.ReadsBack) (reading : Json.Reading) :
    ofJson? reading t.toJson = some t.written := by
  have hobjects : (Json.ofMap (·.index.toNat) (·.toJson) t.objects).map? ObjectKey.ofJson?
      (Object.ofJson? reading.inner.inner) = some t.objects :=
    Json.map?_ofMap ObjectKey.ofJson?_toJson fun k o ho =>
      Object.ofJson?_toJson (h k o ho) reading.inner.inner
  rw [ofJson?_toJson_eq, hobjects, Option.map_some, written]

theorem wellFormed_toJson (t : Table) : t.toJson.WellFormed := by
  obtain ⟨key, name, keyDef, columns, objects, nextColumn, nextObject, keyIndex⟩ := t
  have hcolumns : (Json.array (columns.map (·.toJson))).WellFormed :=
    Json.wellFormed_map fun c _ => c.wellFormed_toJson
  have hobjects : (Json.ofMap (·.index.toNat) (·.toJson) objects).WellFormed :=
    Json.wellFormed_ofMap fun _ o _ => o.wellFormed_toJson
  cases keyDef with
  | none => simp [toJson, TableKey.toJson, hcolumns, hobjects]
  | some d => simp [toJson, TableKey.toJson, hcolumns, hobjects, d.wellFormed_toJson]

end Table

namespace Snapshot

def ReadsBack (x : Snapshot) : Prop := ∀ t ∈ x.tables, t.ReadsBack

def written (x : Snapshot) : Snapshot := { x with tables := x.tables.map (·.written) }

/-- All of a snapshot but its tables is read as it was. -/
theorem ofJson?_toJson_eq (x : Snapshot) (reading : Json.Reading) :
    ofJson? reading x.toJson = ((Json.array (x.tables.map (·.toJson))).list?
      (Table.ofJson? reading.inner.inner)).map ({ x with tables := · }) := by
  simp [ofJson?, toJson, Json.fields?_ofMembers, Json.lookup_cons]
  exact Option.map_eq_bind.symm

theorem ofJson?_toJson {x : Snapshot} (h : x.ReadsBack) (reading : Json.Reading) :
    ofJson? reading x.toJson = some x.written := by
  have htables : (Json.array (x.tables.map (·.toJson))).list? (Table.ofJson? reading.inner.inner) =
      some (x.tables.map (·.written)) :=
    Json.list?_map fun t ht => Table.ofJson?_toJson (h t ht) reading.inner.inner
  rw [ofJson?_toJson_eq, htables, Option.map_some, written]

theorem wellFormed_toJson (x : Snapshot) : x.toJson.WellFormed := by
  have htables : (Json.array (x.tables.map (·.toJson))).WellFormed :=
    Json.wellFormed_map fun t _ => t.wellFormed_toJson
  simp [toJson, htables]

end Snapshot

end ChangesetReplay
