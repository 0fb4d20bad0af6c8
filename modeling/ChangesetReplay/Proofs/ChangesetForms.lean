import ChangesetReplay.Proofs.HoldableShapes
import ChangesetReplay.Proofs.ValueForms
import ChangesetReplay.Form.Changeset
import ChangesetReplay.Replay.Run

/-! # Forms of changesets read back

What is written for a changeset is read as the same changeset. An instruction is held back as a
whole before its kind is known: so all that is written for it can be held back, at most five levels
deep, and what is inside is read as held back too. -/

namespace ChangesetReplay

namespace NameId

@[simp] theorem ofJson?_toJson (id : NameId) : ofJson? id.toJson = some id := by
  simp [ofJson?, toJson]

@[simp] theorem wellFormed_toJson (id : NameId) : id.toJson.WellFormed := Json.wellFormed_ofNat _

@[simp] theorem holdable_toJson (id : NameId) {room : Nat} : id.toJson.holdable room = true :=
  Json.holdable_uint32 id.index

theorem toJson_ne_null (id : NameId) : id.toJson ≠ .null := by
  simp [toJson, Json.ofNat]

end NameId

namespace StringRange

@[simp] theorem ofJson?_toJson (r : StringRange) : ofJson? r.toJson = some r := by
  simp [ofJson?, toJson, Json.fields?_ofMembers, Json.lookup_cons]

@[simp] theorem wellFormed_toJson (r : StringRange) : r.toJson.WellFormed := by
  simp [toJson]

@[simp] theorem holdable_toJson (r : StringRange) {room : Nat} :
    r.toJson.holdable (room + 1) = true := by
  simp [toJson]

end StringRange

@[simp] theorem ValueType.holdable_toJson (t : ValueType) {room : Nat} :
    t.toJson.holdable room = true := by
  cases t <;> exact Json.holdable_ofString _

namespace KeySpec

@[simp] theorem ofJson?_toJson (k : KeySpec) (reading : Json.Reading) :
    ofJson? reading k.toJson = some k := by
  simp [ofJson?, toJson, Json.fields?_ofMembers, Json.lookup_cons, KeyType.ofJson?_toJson,
    Json.getOr, Json.bool?]

@[simp] theorem wellFormed_toJson (k : KeySpec) : k.toJson.WellFormed := by
  simp [toJson, KeyType.toJson]

@[simp] theorem holdable_toJson (k : KeySpec) {room : Nat} :
    k.toJson.holdable (room + 1) = true := by
  simp [toJson, KeyType.toJson]

end KeySpec

namespace KeyPayload

@[simp] theorem ofJson?_toJson (k : KeyPayload) (reading : Json.Reading) :
    ofJson? reading k.toJson = some k := by
  have htag : ∀ kind, (Json.ofTag kind).tagged? Json.keyTagging reading =
      some ⟨kind, none, reading.inner⟩ := Json.tagged?_tag Json.keyTagging reading
  have hpair : ∀ kind content, (Json.ofTagged kind content).tagged? Json.keyTagging reading =
      some ⟨kind, some content, reading.inner⟩ :=
    Json.tagged?_pair (by decide : Json.keyTagging.tag ≠ Json.keyTagging.content) reading
  cases k with
  | null => simp [ofJson?, toJson, htag]
  | int n => simp [ofJson?, toJson, hpair]
  | string range => simp [ofJson?, toJson, hpair]

@[simp] theorem wellFormed_toJson (k : KeyPayload) : k.toJson.WellFormed := by
  cases k <;> simp [toJson]

@[simp] theorem holdable_toJson (k : KeyPayload) {room : Nat} :
    k.toJson.holdable (room + 2) = true := by
  cases k <;> simp [toJson]

theorem toJson_ne_null (k : KeyPayload) : k.toJson ≠ .null := by
  cases k <;> exact Json.ofMembers_ne_null _

end KeyPayload

namespace ObjectRef

@[simp] theorem ofJson?_toJson (ref : ObjectRef) (reading : Json.Reading) :
    ofJson? reading ref.toJson = some ref := by
  cases ref <;> simp [ofJson?, toJson]

@[simp] theorem wellFormed_toJson (ref : ObjectRef) : ref.toJson.WellFormed := by
  cases ref <;> simp [toJson]

@[simp] theorem holdable_toJson (ref : ObjectRef) {room : Nat} :
    ref.toJson.holdable (room + 3) = true := by
  cases ref <;> simp [toJson, ObjectKey.toJson]

end ObjectRef

theorem Binary64.holdable_toJson {x : Binary64} (h : x.ReadsBack) {room : Nat} :
    x.toJson.holdable room = true := by
  cases x with
  | nan => exact Json.holdable_ofString _
  | infinite negative => cases negative <;> exact Json.holdable_ofString _
  | finite negative r => exact Option.isSome_of_eq_some h

@[simp] theorem Timestamp.holdable_toJson (t : Timestamp) {room : Nat} :
    t.toJson.holdable (room + 1) = true := by
  simp [toJson]

@[simp] theorem holdable_bytesToJson (bytes : List UInt8) {room : Nat} :
    (bytesToJson bytes).holdable (room + 1) = true :=
  Json.holdable_map fun b _ => Json.holdable_uint8 b

namespace Payload

def ReadsBack : Payload → Prop
  | float x => x.ReadsBack
  | _ => True

instance (v : Payload) : Decidable v.ReadsBack :=
  match v with
  | float x => inferInstanceAs (Decidable x.ReadsBack)
  | null | int _ | bool _ | string _ | binary _ | timestamp _ | link _ => .isTrue trivial

theorem ofJson?_toJson {v : Payload} (h : v.ReadsBack) (reading : Json.Reading) :
    ofJson? reading v.toJson = some v := by
  have htag : ∀ kind, (Json.ofTag kind).tagged? Json.valueTagging reading =
      some ⟨kind, none, reading.inner⟩ := Json.tagged?_tag Json.valueTagging reading
  have hpair : ∀ kind content, (Json.ofTagged kind content).tagged? Json.valueTagging reading =
      some ⟨kind, some content, reading.inner⟩ :=
    Json.tagged?_pair (by decide : Json.valueTagging.tag ≠ Json.valueTagging.content) reading
  cases v with
  | null => simp [ofJson?, toJson, htag]
  | int n => simp [ofJson?, toJson, hpair]
  | bool b => simp [ofJson?, toJson, hpair, Json.bool?]
  | float x => simp [ofJson?, toJson, hpair, Binary64.ofJson?_toJson h]
  | string range => simp [ofJson?, toJson, hpair]
  | binary bytes => simp [ofJson?, toJson, hpair]
  | timestamp t => simp [ofJson?, toJson, hpair]
  | link ref => simp [ofJson?, toJson, hpair]

@[simp] theorem wellFormed_toJson (v : Payload) : v.toJson.WellFormed := by
  cases v with
  | float x => exact Json.wellFormed_ofTagged.mpr x.wellFormed_toJson
  | _ => simp [toJson]

theorem holdable_toJson {v : Payload} (h : v.ReadsBack) {room : Nat} :
    v.toJson.holdable (room + 4) = true := by
  cases v with
  | float x => exact Json.holdable_ofTagged.mpr (Binary64.holdable_toJson h)
  | _ => simp [toJson]

end Payload

namespace Instruction

def ReadsBack : Instruction → Prop
  | set _ _ v | listInsert _ v | listSet _ v => v.ReadsBack
  | _ => True

instance (i : Instruction) : Decidable i.ReadsBack :=
  match i with
  | set _ _ v | listInsert _ v | listSet _ v => inferInstanceAs (Decidable v.ReadsBack)
  | addTable _ _ | eraseTable _ | addColumn _ _ _ _ _ _ | eraseColumn _ _ | selectTable _
  | selectField _ _ | selectLinkList _ _ | createObject _ | eraseObject _ | addInteger _ _ _
  | listErase _ | listMove _ _ | listSwap _ _ | listClear => .isTrue trivial

/-- The fields are read back under the name of the kind, which stands among them. -/
theorem ofFields?_toJson {i : Instruction} (h : i.ReadsBack) :
    ∃ kind fields, i.toJson = withKind kind fields ∧ ("type" :: fields.map (·.1)).Nodup ∧
      ofFields? kind i.toJson = some i := by
  have hspec : ∀ key, Json.optional? (KeySpec.ofJson? .held) (.ofOption (·.toJson) key) =
      some key :=
    Json.optional?_ofOption fun k => ⟨Json.ofMembers_ne_null _, k.ofJson?_toJson .held⟩
  have hname : ∀ id, Json.optional? NameId.ofJson? (.ofOption (·.toJson) id) = some id :=
    Json.optional?_ofOption fun id => ⟨id.toJson_ne_null, id.ofJson?_toJson⟩
  have hkey : ∀ key, Json.optional? (KeyPayload.ofJson? .held) (.ofOption (·.toJson) key) =
      some key :=
    Json.optional?_ofOption fun k => ⟨k.toJson_ne_null, k.ofJson?_toJson .held⟩
  cases i with
  | set object field v =>
    refine ⟨_, _, rfl, by simp, ?_⟩
    simp [ofFields?, toJson, withKind, Json.fields?_ofMembers, Json.lookup_cons,
      Payload.ofJson?_toJson h]
  | listInsert index v =>
    refine ⟨_, _, rfl, by simp, ?_⟩
    simp [ofFields?, toJson, withKind, Json.fields?_ofMembers, Json.lookup_cons,
      Payload.ofJson?_toJson h]
  | listSet index v =>
    refine ⟨_, _, rfl, by simp, ?_⟩
    simp [ofFields?, toJson, withKind, Json.fields?_ofMembers, Json.lookup_cons,
      Payload.ofJson?_toJson h]
  | _ =>
    refine ⟨_, _, rfl, by simp, ?_⟩
    simp [ofFields?, toJson, withKind, Json.fields?_ofMembers, Json.lookup_cons, Json.getOr,
      Json.bool?, ValueType.ofJson?_toJson, hspec, hname, hkey]

@[simp] theorem wellFormed_toJson (i : Instruction) : i.toJson.WellFormed := by
  have hspec := Json.wellFormed_ofOption KeySpec.wellFormed_toJson
  have hname := Json.wellFormed_ofOption NameId.wellFormed_toJson
  have hkey := Json.wellFormed_ofOption KeyPayload.wellFormed_toJson
  cases i <;> simp [toJson, withKind, hspec, hname, hkey]

/-- The deepest that is written for an instruction is the key by which a link refers to an object:
a range, in a key, in a reference, in a payload, in the instruction. -/
theorem holdable_toJson {i : Instruction} (h : i.ReadsBack) {room : Nat} :
    i.toJson.holdable (room + 5) = true := by
  have hspec : ∀ key, (Json.ofOption KeySpec.toJson key).holdable (room + 4) = true :=
    Json.holdable_ofOption fun k => k.holdable_toJson
  have hname : ∀ id, (Json.ofOption NameId.toJson id).holdable (room + 4) = true :=
    Json.holdable_ofOption fun id => id.holdable_toJson
  have hkey : ∀ key, (Json.ofOption KeyPayload.toJson key).holdable (room + 4) = true :=
    Json.holdable_ofOption fun k => k.holdable_toJson
  cases i with
  | set object field v => simp [toJson, withKind, Payload.holdable_toJson h]
  | listInsert index v => simp [toJson, withKind, Payload.holdable_toJson h]
  | listSet index v => simp [toJson, withKind, Payload.holdable_toJson h]
  | _ => simp [toJson, withKind, hspec, hname, hkey]

theorem ofJson?_toJson {i : Instruction} (h : i.ReadsBack) (room : Nat) :
    ofJson? (room + 5) i.toJson = some i := by
  obtain ⟨kind, fields, hform, hnames, hfields⟩ := ofFields?_toJson h
  have hhold : i.toJson.holdable (room + 5) = true := holdable_toJson h
  have hkind : i.toJson.fields? ["type"] = some [some (.ofString kind)] := by
    rw [hform, withKind, Json.fields?_ofMembers (by simpa using hnames)]
    simp
  have hobject : i.toJson = .object (_ :: _) := hform
  rw [hobject] at hhold hkind hfields ⊢
  simp [ofJson?, hhold, hkind, hfields]

end Instruction

namespace Changeset
variable {c : Changeset}

def ReadsBack (c : Changeset) : Prop := ∀ i ∈ c.instructions, i.ReadsBack

instance (c : Changeset) : Decidable c.ReadsBack :=
  inferInstanceAs (Decidable (∀ i ∈ c.instructions, i.ReadsBack))

theorem ofJson?_toJson (h : c.ReadsBack) (room : Nat) : ofJson? (room + 7) c.toJson = some c := by
  have hstrings := Json.list?_map (l := c.strings) (g := id) fun s _ => Json.text?_ofString s
  have hlist := Json.list?_map (g := id) fun i hi => Instruction.ofJson?_toJson (h i hi) room
  rw [List.map_id] at hstrings hlist
  simp [ofJson?, toJson, Json.fields?_ofMembers, Json.lookup_cons, Json.getOr, hstrings, hlist]

theorem wellFormed_toJson (c : Changeset) : c.toJson.WellFormed := by
  have hstrings := Json.wellFormed_map (l := c.strings) fun s _ => Json.wellFormed_ofString s
  have hlist := Json.wellFormed_map (l := c.instructions) fun i _ => i.wellFormed_toJson
  simp [toJson, hstrings, hlist]

def texts (c : Changeset) : List String := [c.toText, c.toJson.pretty]

theorem ofText?_texts (h : c.ReadsBack) {text : String} (htext : text ∈ c.texts) :
    ofText? text = some c := by
  have hform : ofJson? 127 c.toJson = some c := ofJson?_toJson h 120
  simp only [texts, List.mem_cons, List.not_mem_nil, or_false] at htext
  rcases htext with rfl | rfl
  · rw [ofText?, toText, Json.ofText?_compact c.wellFormed_toJson, Option.bind_eq_bind,
      Option.bind_some, hform]
  · rw [ofText?, Json.ofText?_pretty c.wellFormed_toJson, Option.bind_eq_bind, Option.bind_some,
      hform]

/-- From each of its texts a changeset is read as it was written. So what is read changes every
store as the changeset does, records the same events and ends with the same error, if with any. -/
theorem texts_read_back (h : c.ReadsBack) :
    ∀ text ∈ c.texts, ofText? text = some c ∧
      ∀ d, ofText? text = some d → ∀ limits (s : Store), s.apply limits d = s.apply limits c := by
  intro text htext
  have hread : ofText? text = some c := ofText?_texts h htext
  refine ⟨hread, fun d hd limits s => ?_⟩
  rw [Option.some.inj (hd.symm.trans hread)]

def probes : Changeset where
  schemaVersion := 3
  strings := ["probe", "name", "readings", "\"peer\"\n"]
  buffer := "Süd"
  instructions := [.addTable ⟨0⟩ (some ⟨⟨1⟩, .string, true⟩),
    .addColumn ⟨0⟩ ⟨2⟩ .float false true none, .addColumn ⟨0⟩ ⟨3⟩ .link true false (some ⟨0⟩),
    .selectTable ⟨0⟩, .createObject (some (.string ⟨0, 4⟩)), .createObject (some .null),
    .set (.created 1) ⟨3⟩ (.link (.primaryKey (.string ⟨0, 4⟩))),
    .selectField (.key ⟨1⟩) ⟨2⟩, .listInsert 0 (.float .nan),
    .listInsert 1 (.float (.infinite true)),
    .listSet 0 (.float (.finite true ⟨1024 * Binary64.perExponent, by decide⟩)), .listMove 0 1,
    .eraseObject (.primaryKey .null)]

theorem texts_read_back_probes :
    probes.ReadsBack ∧ ∃ d, ofText? probes.toText = some d ∧
      ((Store.new 3).apply .standard d).error = none ∧
      ((Store.new 3).apply .standard d).events.length = 13 := by
  have hback : probes.ReadsBack := by decide +kernel
  obtain ⟨hread, happly⟩ := texts_read_back hback _ (List.mem_cons_self ..)
  refine ⟨hback, probes, hread, ?_⟩
  rw [happly probes hread]
  decide +kernel

end Changeset

end ChangesetReplay
