import ChangesetReplay.Proofs.JsonText
import ChangesetReplay.Proofs.StoreActions
import ChangesetReplay.Form.Snapshot

/-! # Shapes written and read back

The shapes that JSON forms are made of: strings and integers, records, tagged values, lists and
maps. Each is well formed, and is read as what was written. -/

namespace ChangesetReplay

namespace Json

@[simp] theorem text?_ofString (s : String) : (ofString s).text? = some s := by
  simp [text?, ofString, unescape?_escape]

@[simp] theorem variant?_ofString (reading : Reading) (s : String) :
    (ofString s).variant? reading = some s := text?_ofString s

theorem intIn?_ofInt {low high n : Int} (hlow : low ≤ n) (hhigh : n ≤ high) :
    (ofInt n).intIn? low high = some n := by
  simp [intIn?, int?, ofInt, hlow, hhigh]

theorem intIn?_ofNat {high : Int} {n : Nat} (hhigh : n ≤ high) :
    (ofNat n).intIn? 0 high = some n := by
  simp [intIn?, int?, ofNat, hhigh]

@[simp] theorem uint8?_ofNat (n : UInt8) : (ofNat n.toNat).uint8? = some n := by
  have hlt := n.toNat_lt
  rw [uint8?, intIn?_ofNat (by omega)]
  simp

@[simp] theorem uint32?_ofNat (n : UInt32) : (ofNat n.toNat).uint32? = some n := by
  have hlt := n.toNat_lt
  rw [uint32?, intIn?_ofNat (by omega)]
  simp

@[simp] theorem uint64?_ofNat (n : UInt64) : (ofNat n.toNat).uint64? = some n := by
  have hlt := n.toNat_lt
  rw [uint64?, intIn?_ofNat (by omega)]
  simp

@[simp] theorem int32?_ofInt (n : Int32) : (ofInt n.toInt).int32? = some n := by
  have hlow := n.le_toInt
  have hhigh := n.toInt_lt
  rw [int32?, intIn?_ofInt (by omega) (by omega)]
  simp

@[simp] theorem int64?_ofInt (n : Int64) : (ofInt n.toInt).int64? = some n := by
  have hlow := n.le_toInt
  have hhigh := n.toInt_lt
  rw [int64?, intIn?_ofInt (by omega) (by omega)]
  simp

/-- Reading what was written, item by item. -/
theorem mapM_map_eq_some {α β γ : Type} {l : List α} {write : α → γ} {read : γ → Option β}
    {g : α → β} (h : ∀ a ∈ l, read (write a) = some (g a)) :
    (l.map write).mapM read = some (l.map g) := by
  induction l with
  | nil => rfl
  | cons a l ih =>
    have ha := h a (List.mem_cons_self ..)
    have hl := ih fun b hb => h b (List.mem_cons_of_mem _ hb)
    simp [List.mapM_cons, ha, hl]

@[simp] theorem members?_ofMembers (ms : List (String × Json)) :
    (ofMembers ms).members? = some ms := by
  have hall : (ofMembers ms).members? = some (ms.map id) :=
    mapM_map_eq_some fun m _ => by simp [member, unescape?_escape]
  rw [hall, List.map_id]

theorem lookup_cons (name first : String) (j : Json) (ms : List (String × Json)) :
    ((first, j) :: ms).lookup name = if name = first then some j else ms.lookup name := by
  by_cases h : name = first
  · simp [h]
  · have hne : (name == first) = false := by simpa using h
    rw [if_neg h, List.lookup_cons, hne]

/-- Among names without repetition, a name picks out its member. -/
theorem filter_name {ms : List (String × Json)} (h : (ms.map (·.1)).Nodup) (name : String) :
    ms.filter (·.1 = name) = ((ms.lookup name).map (name, ·)).toList := by
  induction ms with
  | nil => rfl
  | cons m ms ih =>
    obtain ⟨hnot, hnodup⟩ := List.nodup_cons.mp h
    obtain ⟨first, j⟩ := m
    by_cases hname : first = name
    · subst hname
      have hrest : ms.filter (·.1 = first) = [] := by
        rw [List.filter_eq_nil_iff]
        intro m hm hfirst
        exact hnot (List.mem_map.mpr ⟨m, hm, by simpa using hfirst⟩)
      simp [hrest]
    · simp [hname, lookup_cons, Ne.symm hname, ih hnodup]

/-- The fields of a record are read as its members say, and a field without a member as left out. -/
theorem fields?_ofMembers {ms : List (String × Json)} (h : (ms.map (·.1)).Nodup)
    (names : List String) : (ofMembers ms).fields? names = some (names.map (ms.lookup ·)) := by
  have hmembers : (ofMembers ms).members? = some ms := members?_ofMembers ms
  show (ofMembers ms).members?.bind _ = _
  rw [hmembers, Option.bind_some, ← List.map_id names, List.map_map]
  refine mapM_map_eq_some fun name _ => ?_
  simp only [id_eq, filter_name h, Function.comp_apply]
  cases ms.lookup name <;> rfl

theorem ofMembers_ne_null (ms : List (String × Json)) : ofMembers ms ≠ .null := by
  simp [ofMembers]

theorem ofString_ne_null (s : String) : ofString s ≠ .null := by
  simp [ofString]

/-- An optional value that is there. -/
theorem optional?_of_some {α : Type} {read : Json → Option α} {j : Json} {a : α} (hj : j ≠ .null)
    (h : read j = some a) : optional? read j = some (some a) := by
  cases j with
  | null => exact absurd rfl hj
  | _ => simp [optional?, h]

theorem optional?_ofOption {α : Type} {read : Json → Option α} {write : α → Json}
    (h : ∀ a, write a ≠ .null ∧ read (write a) = some a) (o : Option α) :
    optional? read (ofOption write o) = some o := by
  cases o with
  | none => rfl
  | some a => exact optional?_of_some (h a).1 (h a).2

/-- A tag and its content. -/
theorem tagged?_pair {tagging : Tagging} (h : tagging.tag ≠ tagging.content) (reading : Reading)
    (kind : String) (content : Json) :
    (ofMembers [(tagging.tag, ofString kind), (tagging.content, content)]).tagged? tagging reading =
      some ⟨kind, some content, reading.inner⟩ := by
  show (ofMembers _).members?.bind _ = _
  simp [h]

/-- A tag alone. -/
theorem tagged?_tag (tagging : Tagging) (reading : Reading) (kind : String) :
    (ofMembers [(tagging.tag, ofString kind)]).tagged? tagging reading =
      some ⟨kind, none, reading.inner⟩ := by
  show (ofMembers _).members?.bind _ = _
  simp

theorem list?_map {α β : Type} {l : List α} {write : α → Json} {read : Json → Option β}
    {g : α → β} (h : ∀ a ∈ l, read (write a) = some (g a)) :
    (array (l.map write)).list? read = some (l.map g) := mapM_map_eq_some h

/-- Digits need no escape. -/
theorem escape_digits {ds : List Char} (h : ∀ c ∈ ds, c.isDigit = true) : escape ds = ds := by
  induction ds with
  | nil => rfl
  | cons c ds ih =>
    have hds := ih fun d hd => h d (List.mem_cons_of_mem _ hd)
    have hdigit := h c (List.mem_cons_self ..)
    have hne : ∀ d : Char, d.isDigit = false → c ≠ d := fun d hd heq => by
      rw [← heq, hdigit] at hd
      exact absurd hd (by decide)
    have hlow : ¬c.toNat < 0x20 := by
      have hc := (Char.isDigit_iff_toNat.mp hdigit).1
      simp at hc
      omega
    have hself : escapeChar c = [c] := by
      simp [escapeChar, hne '"' rfl, hne '\\' rfl, hne '\x08' rfl, hne '\x0c' rfl, hne '\n' rfl,
        hne '\r' rfl, hne '\t' rfl, hlow]
    rw [escape, List.flatMap_cons, hself]
    exact congrArg (c :: ·) hds

theorem ofText?_toDigits (n : Nat) : Numeral.ofText? (Nat.toDigits 10 n) = some (.ofNat n) := by
  have htext : (Numeral.ofNat n).text true = Nat.toDigits 10 n := by
    simp [Numeral.text, Numeral.ofNat]
  rw [← htext]
  exact Numeral.ofText?_text (Numeral.wellFormed_ofNat n) true

theorem map?_ofMap {α β : Type} [Ord α] [Std.TransOrd α] [Std.LawfulEqOrd α] [DecidableEq α]
    {index : α → Nat} {value : β → Json} {key? : Json → Option α} {value? : Json → Option β}
    {m : Std.ExtTreeMap α β} (hkey : ∀ k, key? (ofNat (index k)) = some k)
    (hvalue : ∀ (k : α) (v : β), m[k]? = some v → value? (value v) = some v) :
    (ofMap index value m).map? key? value? = some m := by
  have hentries : (m.toList.map fun e => (Nat.toDigits 10 (index e.1), value e.2)).mapM
      (fun e => do some (← key? (.number (← Numeral.ofText? e.1)), ← value? e.2)) =
        some (m.toList.map id) := by
    refine mapM_map_eq_some fun e he => ?_
    have hv := hvalue e.1 e.2 (Std.ExtTreeMap.mem_toList_iff_getElem?_eq_some.mp he)
    have hk := hkey e.1
    simp only [ofNat] at hk
    simp [ofText?_toDigits, hk, hv]
  rw [List.map_id] at hentries
  show Option.bind (List.mapM _ _) _ = _
  rw [hentries]
  exact congrArg some (FiniteMap.ofList_toList m)

@[simp] theorem wellFormed_bool (b : Bool) : (Json.bool b).WellFormed := .bool b

@[simp] theorem wellFormed_ofString (s : String) : (ofString s).WellFormed := .string s.toList

@[simp] theorem wellFormed_ofNat (n : Nat) : (ofNat n).WellFormed :=
  .number (Numeral.wellFormed_ofNat n)

@[simp] theorem wellFormed_ofInt (n : Int) : (ofInt n).WellFormed :=
  .number (Numeral.wellFormed_ofInt n)

@[simp] theorem wellFormed_ofMembers {ms : List (String × Json)} :
    (ofMembers ms).WellFormed ↔ ∀ m ∈ ms, m.2.WellFormed := by
  constructor
  · rintro (_ | _ | _ | _ | _ | ⟨-, h⟩) m hm
    exact h (member m.1 m.2) (List.mem_map.mpr ⟨m, hm, rfl⟩)
  · intro h
    refine .object (fun n hn => ?_) (fun n hn => ?_)
    · obtain ⟨m, -, rfl⟩ := List.mem_map.mp hn
      exact ⟨m.1.toList, rfl⟩
    · obtain ⟨m, hm, rfl⟩ := List.mem_map.mp hn
      exact h m hm

@[simp] theorem wellFormed_ofTag (tag : String) : (ofTag tag).WellFormed := by
  simp [ofTag]

@[simp] theorem wellFormed_ofTagged {tag : String} {content : Json} :
    (ofTagged tag content).WellFormed ↔ content.WellFormed := by
  simp [ofTagged]

theorem wellFormed_ofOption {α : Type} {write : α → Json} (h : ∀ a, (write a).WellFormed)
    (o : Option α) : (ofOption write o).WellFormed := by
  cases o with
  | none => exact .null
  | some a => exact h a

theorem wellFormed_map {α : Type} {l : List α} {write : α → Json}
    (h : ∀ a ∈ l, (write a).WellFormed) : (array (l.map write)).WellFormed := by
  refine .array fun j hj => ?_
  obtain ⟨a, ha, rfl⟩ := List.mem_map.mp hj
  exact h a ha

theorem wellFormed_ofMap {α β : Type} [Ord α] [Std.TransOrd α] [Std.LawfulEqOrd α]
    {index : α → Nat} {value : β → Json} {m : Std.ExtTreeMap α β}
    (h : ∀ (k : α) (v : β), m[k]? = some v → (value v).WellFormed) :
    (ofMap index value m).WellFormed := by
  refine .object (fun n hn => ?_) (fun n hn => ?_)
  · obtain ⟨e, -, rfl⟩ := List.mem_map.mp hn
    exact ⟨_, (escape_digits (Numeral.isDigits_toDigits _).digits).symm⟩
  · obtain ⟨e, he, rfl⟩ := List.mem_map.mp hn
    exact h e.1 e.2 (Std.ExtTreeMap.mem_toList_iff_getElem?_eq_some.mp he)

end Json

end ChangesetReplay
