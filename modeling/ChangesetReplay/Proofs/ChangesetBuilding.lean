import ChangesetReplay.Proofs.StringRanges

/-! # Building changesets

A changeset is built by interning names, adding strings and pushing instructions. What is there
stays in its place, and what is new comes after it, so an entry or a range that was handed out leads
to the same text ever after. Interning gives the first entry of a name, also where the table has it
more than once, so a name has one entry for all who intern it. -/

namespace ChangesetReplay
namespace Changeset

inductive Call where
  | intern (name : String)
  | addString (s : String)
  | push (i : Instruction)

def Call.instruction? : Call → Option Instruction
  | push i => some i
  | intern _ | addString _ => none

/-- What is handed out for a text. -/
inductive Receipt where
  | name (text : String) (id : NameId)
  | string (text : String) (range : StringRange)
deriving DecidableEq

def after (c : Changeset) : Call → Changeset
  | .intern name => (c.intern name).2
  | .addString s => (c.addString s).2
  | .push i => c.push i

def receipt? (c : Changeset) : Call → Option Receipt
  | .intern name => some (.name name (c.intern name).1)
  | .addString s => some (.string s (c.addString s).1)
  | .push _ => none

def afterAll (c : Changeset) (calls : List Call) : Changeset := calls.foldl after c

def receipts (c : Changeset) : List Call → List Receipt
  | [] => []
  | call :: rest => (c.receipt? call).toList ++ receipts (c.after call) rest

/-- What was handed out for a text leads to it. -/
def Resolves (c : Changeset) : Receipt → Prop
  | .name text id => c.name id = .ok text
  | .string text range => c.string range = .ok text

variable {c c' d : Changeset} {name s t : String} {id a b : NameId}
variable {call : Call} {calls : List Call} {receipt : Receipt}

/-- All of `c` is in its place in `c'`, and what is new comes after it. -/
structure Extends (c c' : Changeset) : Prop where
  schemaVersion : c'.schemaVersion = c.schemaVersion
  strings : c.strings <+: c'.strings
  buffer : ∃ added, c'.buffer = c.buffer ++ added
  instructions : c.instructions <+: c'.instructions

theorem Extends.refl : c.Extends c :=
  ⟨rfl, List.prefix_refl _, ⟨"", String.append_empty.symm⟩, List.prefix_refl _⟩

theorem Extends.trans (h : c.Extends c') (h' : c'.Extends d) : c.Extends d := by
  obtain ⟨first, hfirst⟩ := h.buffer
  obtain ⟨second, hsecond⟩ := h'.buffer
  have hbuffer : d.buffer = c.buffer ++ (first ++ second) := by
    rw [hsecond, hfirst, String.append_assoc]
  exact ⟨h'.schemaVersion.trans h.schemaVersion, h.strings.trans h'.strings, ⟨_, hbuffer⟩,
    h.instructions.trans h'.instructions⟩

theorem Extends.utf8ByteSize_le (h : c.Extends c') :
    c.buffer.utf8ByteSize ≤ c'.buffer.utf8ByteSize := by
  obtain ⟨added, hadded⟩ := h.buffer
  rw [hadded, String.utf8ByteSize_append]
  exact Nat.le_add_right ..

/-- Interning finds the first entry of a name, or adds one at the end of the table. -/
theorem intern_cases (c : Changeset) (name : String) :
    (∃ i, c.strings.findIdx? (· = name) = some i ∧ c.intern name = (⟨.ofNat i⟩, c)) ∨
    (name ∉ c.strings ∧ c.intern name =
      (⟨.ofNat c.strings.length⟩, { c with strings := c.strings ++ [name] })) := by
  cases h : c.strings.findIdx? (· = name) with
  | some i => exact .inl ⟨i, rfl, by rw [intern, h]⟩
  | none =>
    refine .inr ⟨fun hmem => ?_, by rw [intern, h]⟩
    simpa using List.findIdx?_eq_none_iff.mp h name hmem

theorem intern_of_mem (h : name ∈ c.strings) : (c.intern name).2 = c := by
  rcases c.intern_cases name with ⟨i, -, hi⟩ | ⟨hnew, -⟩
  · rw [hi]
  · exact absurd h hnew

theorem intern_of_not_mem (h : name ∉ c.strings) :
    (c.intern name).2 = { c with strings := c.strings ++ [name] } := by
  rcases c.intern_cases name with ⟨i, hi, -⟩ | ⟨-, hnew⟩
  · obtain ⟨hlt, hname, -⟩ := List.findIdx?_eq_some_iff_getElem.mp hi
    exact absurd (of_decide_eq_true hname ▸ List.getElem_mem hlt) h
  · rw [hnew]

theorem extends_after (c : Changeset) (call : Call) : c.Extends (c.after call) := by
  cases call with
  | intern name =>
    rw [after]
    by_cases h : name ∈ c.strings
    · rw [intern_of_mem h]
      exact .refl
    · rw [intern_of_not_mem h]
      exact { Extends.refl with strings := List.prefix_append .. }
  | addString s => exact { Extends.refl with buffer := ⟨s, rfl⟩ }
  | push i => exact { Extends.refl with instructions := List.prefix_append .. }

theorem extends_afterAll (c : Changeset) (calls : List Call) : c.Extends (c.afterAll calls) := by
  induction calls generalizing c with
  | nil => exact .refl
  | cons call rest ih => exact (c.extends_after call).trans (ih _)

theorem afterAll_append (earlier later : List Call) :
    c.afterAll (earlier ++ later) = (c.afterAll earlier).afterAll later := List.foldl_append

/-- The first entry of the name has the number `id`. -/
def Interned (c : Changeset) (name : String) (id : NameId) : Prop :=
  ∃ i, c.strings.findIdx? (· = name) = some i ∧ id = ⟨.ofNat i⟩

theorem intern_interned (c : Changeset) (name : String) :
    (c.intern name).2.Interned name (c.intern name).1 := by
  rcases c.intern_cases name with ⟨i, hi, heq⟩ | ⟨hnew, heq⟩
  · rw [heq]
    exact ⟨i, hi, rfl⟩
  · have habsent : c.strings.findIdx? (· = name) = none :=
      List.findIdx?_eq_none_iff.mpr fun s hs => decide_eq_false (ne_of_mem_of_not_mem hs hnew)
    rw [heq]
    exact ⟨c.strings.length, by simp [List.findIdx?_append, habsent], rfl⟩

theorem Interned.of_extends (h : c.Interned name id) (hc : c.Extends c') :
    c'.Interned name id := by
  obtain ⟨i, hi, rfl⟩ := h
  exact ⟨i, hc.strings.findIdx?_eq_some hi, rfl⟩

theorem Interned.unique (ha : c.Interned name a) (hb : c.Interned name b) : a = b := by
  obtain ⟨i, hi, rfl⟩ := ha
  obtain ⟨j, hj, rfl⟩ := hb
  cases hi.symm.trans hj
  rfl

theorem Interned.name_eq (h : c.Interned name id) (hroom : c.strings.length < UInt32.size) :
    c.name id = .ok name := by
  obtain ⟨i, hi, rfl⟩ := h
  obtain ⟨hlt, hname, -⟩ := List.findIdx?_eq_some_iff_getElem.mp hi
  have hindex : (UInt32.ofNat i).toNat = i := UInt32.toNat_ofNat_of_lt' (Nat.lt_trans hlt hroom)
  rw [Changeset.name, hindex, List.getElem?_eq_getElem hlt, of_decide_eq_true hname]

/-- Names have the same entry exactly if they are the same. -/
theorem Interned.eq_iff (hs : c.Interned s a) (ht : c.Interned t b)
    (hroom : c.strings.length < UInt32.size) : a = b ↔ s = t := by
  constructor
  · rintro rfl
    exact Except.ok.inj ((hs.name_eq hroom).symm.trans (ht.name_eq hroom))
  · rintro rfl
    exact hs.unique ht

/-- A string that was added is what its range spells, as long as the numbers have not wrapped. -/
theorem addString_spells (hroom : (c.addString s).2.buffer.utf8ByteSize < UInt32.size) :
    (c.addString s).1.Spells (c.addString s).2.buffer s := by
  have hsum : c.buffer.utf8ByteSize + s.utf8ByteSize < UInt32.size := by
    rwa [addString, String.utf8ByteSize_append] at hroom
  have hoffset : (UInt32.ofNat c.buffer.utf8ByteSize).toNat = c.buffer.utf8ByteSize :=
    UInt32.toNat_ofNat_of_lt' (by omega)
  have hsize : (UInt32.ofNat s.utf8ByteSize).toNat = s.utf8ByteSize :=
    UInt32.toNat_ofNat_of_lt' (by omega)
  exact ⟨c.buffer, "", String.append_empty.symm, hoffset.symm, hsize.symm⟩

def Holds (c : Changeset) : Receipt → Prop
  | .name text id => c.Interned text id
  | .string text range => range.Spells c.buffer text

theorem Extends.holds (hc : c.Extends c') (h : c.Holds receipt) : c'.Holds receipt := by
  cases receipt with
  | name text id => exact Interned.of_extends h hc
  | string text range =>
    obtain ⟨added, hadded⟩ := hc.buffer
    show range.Spells c'.buffer text
    rw [hadded]
    exact StringRange.Spells.append h added

theorem holds_of_receipt? (h : c.receipt? call = some receipt)
    (hroom : (c.after call).buffer.utf8ByteSize < UInt32.size) :
    (c.after call).Holds receipt := by
  cases call with
  | intern name =>
    cases h
    exact c.intern_interned name
  | addString s =>
    cases h
    exact addString_spells hroom
  | push i => cases h

/-- What was handed out at any time is still where the text is. -/
theorem holds_of_mem_receipts (hroom : (c.afterAll calls).buffer.utf8ByteSize < UInt32.size)
    (h : receipt ∈ c.receipts calls) : (c.afterAll calls).Holds receipt := by
  induction calls generalizing c with
  | nil => cases h
  | cons call rest ih =>
    rcases List.mem_append.mp h with h | h
    · -- The buffer only grows, so it had room for the first call too.
      have hlater := (c.after call).extends_afterAll rest
      have hfits : (c.after call).buffer.utf8ByteSize < UInt32.size :=
        Nat.lt_of_le_of_lt hlater.utf8ByteSize_le hroom
      exact hlater.holds (holds_of_receipt? (Option.mem_toList.mp h) hfits)
    · exact ih hroom h

theorem resolves_of_holds (hroom : c.strings.length < UInt32.size) (h : c.Holds receipt) :
    c.Resolves receipt := by
  cases receipt with
  | name text id => exact Interned.name_eq h hroom
  | string text range => exact string_ok_iff.mpr h

theorem strings_after (c : Changeset) (call : Call) :
    ∃ new, (c.after call).strings = c.strings ++ new ∧ new.Nodup ∧
      ∀ name, name ∈ new ↔ name ∉ c.strings ∧ call = .intern name := by
  cases call with
  | intern asked =>
    by_cases h : asked ∈ c.strings
    · refine ⟨[], by rw [after, intern_of_mem h, List.append_nil], .nil, fun name => ?_⟩
      simp only [List.not_mem_nil, false_iff, not_and, Call.intern.injEq]
      rintro hnew rfl
      exact hnew h
    · refine ⟨[asked], by rw [after, intern_of_not_mem h], by simp, fun name => ?_⟩
      simp only [List.mem_singleton, Call.intern.injEq]
      constructor
      · rintro rfl
        exact ⟨h, rfl⟩
      · exact fun hname => hname.2.symm
  | addString s => exact ⟨[], (List.append_nil _).symm, .nil, by simp⟩
  | push i => exact ⟨[], (List.append_nil _).symm, .nil, by simp⟩

/-- The table gets just the names that it did not have, each once. -/
theorem strings_afterAll (c : Changeset) (calls : List Call) :
    ∃ new, (c.afterAll calls).strings = c.strings ++ new ∧ new.Nodup ∧
      ∀ name, name ∈ new ↔ name ∉ c.strings ∧ .intern name ∈ calls := by
  induction calls generalizing c with
  | nil => exact ⟨[], (List.append_nil _).symm, .nil, by simp⟩
  | cons call rest ih =>
    obtain ⟨first, hfirst, hnodup, hmem⟩ := c.strings_after call
    obtain ⟨second, hsecond, hnodup', hmem'⟩ := ih (c.after call)
    simp only [hfirst, List.mem_append, not_or] at hmem'
    refine ⟨first ++ second, ?_, ?_, fun name => ?_⟩
    · rw [← List.append_assoc, ← hfirst, ← hsecond]
      rfl
    · -- The rest meets a table with the names that the first call has added.
      refine List.nodup_append.mpr ⟨hnodup, hnodup', fun s hs t ht => ?_⟩
      exact ne_of_mem_of_not_mem hs ((hmem' t).mp ht).1.2
    · rw [List.mem_append, List.mem_cons, hmem', hmem]
      grind

theorem instructions_after (c : Changeset) (call : Call) :
    (c.after call).instructions = c.instructions ++ call.instruction?.toList := by
  cases call with
  | intern name =>
    rcases c.intern_cases name with ⟨i, -, h⟩ | ⟨-, h⟩ <;> simp [after, h, Call.instruction?]
  | addString s => exact (List.append_nil _).symm
  | push i => rfl

theorem instructions_afterAll (c : Changeset) (calls : List Call) :
    (c.afterAll calls).instructions = c.instructions ++ calls.filterMap Call.instruction? := by
  induction calls generalizing c with
  | nil => exact (List.append_nil _).symm
  | cons call rest ih =>
    have hrest : (c.afterAll (call :: rest)).instructions =
        c.instructions ++ call.instruction?.toList ++ rest.filterMap Call.instruction? := by
      rw [← instructions_after, ← ih]
      rfl
    rw [hrest, List.append_assoc]
    cases h : call.instruction? <;> simp [h]

structure Builds (c : Changeset) (calls : List Call) (built : Changeset) : Prop where
  resolves : ∀ receipt ∈ c.receipts calls, built.Resolves receipt
  same_entry_iff : ∀ s t a b, .name s a ∈ c.receipts calls → .name t b ∈ c.receipts calls →
    (a = b ↔ s = t)
  extends_earlier : ∀ earlier later, calls = earlier ++ later → (c.afterAll earlier).Extends built
  present : ∀ earlier name later, calls = earlier ++ .intern name :: later →
    let met := c.afterAll earlier
    name ∈ met.strings → met.after (.intern name) = met
  strings : ∃ new, built.strings = c.strings ++ new ∧ new.Nodup ∧
    ∀ name, name ∈ new ↔ name ∉ c.strings ∧ .intern name ∈ calls
  instructions : built.instructions = c.instructions ++ calls.filterMap Call.instruction?

/-- As long as the sizes of the buffer and of the table fit into 32 bits, all that was handed out
while a changeset was built leads to its text in the end. Names have the same entry exactly if they
are the same, and what was there at any time stays. -/
theorem receipts_stay_valid (c : Changeset) (calls : List Call)
    (hbuffer : (c.afterAll calls).buffer.utf8ByteSize < UInt32.size)
    (hstrings : (c.afterAll calls).strings.length < UInt32.size) :
    c.Builds calls (c.afterAll calls) where
  resolves receipt h := resolves_of_holds hstrings (holds_of_mem_receipts hbuffer h)
  same_entry_iff s t a b hs ht := by
    have hs : (c.afterAll calls).Interned s a := holds_of_mem_receipts hbuffer hs
    have ht : (c.afterAll calls).Interned t b := holds_of_mem_receipts hbuffer ht
    exact hs.eq_iff ht hstrings
  extends_earlier earlier later h := by
    rw [h, afterAll_append]
    exact extends_afterAll ..
  present earlier name later _ hmem := intern_of_mem hmem
  strings := c.strings_afterAll calls
  instructions := c.instructions_afterAll calls

/-- The table has a name twice, and the buffer a character of two bytes. -/
def kennel : Changeset := ⟨1, ["dogs", "age", "dogs"], "né", [.listClear]⟩

def kennelCalls : List Call :=
  [.intern "dogs", .addString "rex€", .push (.selectTable ⟨0⟩), .intern "name", .addString "",
    .intern "dogs"]

theorem receipts_stay_valid_kennel :
    let built := kennel.afterAll kennelCalls
    built.buffer.utf8ByteSize < UInt32.size ∧ built.strings.length < UInt32.size ∧
    kennel.receipts kennelCalls = [.name "dogs" ⟨0⟩, .string "rex€" ⟨3, 6⟩, .name "name" ⟨3⟩,
      .string "" ⟨9, 0⟩, .name "dogs" ⟨0⟩] ∧
    kennel.Builds kennelCalls built ∧
    built.name ⟨3⟩ = .ok "name" ∧ built.string ⟨3, 6⟩ = .ok "rex€" := by
  intro built
  have hbuffer : built.buffer.utf8ByteSize < UInt32.size := by decide
  have hstrings : built.strings.length < UInt32.size := by decide
  have hreceipts : kennel.receipts kennelCalls = [.name "dogs" ⟨0⟩, .string "rex€" ⟨3, 6⟩,
      .name "name" ⟨3⟩, .string "" ⟨9, 0⟩, .name "dogs" ⟨0⟩] := by decide
  have hbuilds := receipts_stay_valid kennel kennelCalls hbuffer hstrings
  have hname := hbuilds.resolves (.name "name" ⟨3⟩) (hreceipts ▸ by decide)
  have hstring := hbuilds.resolves (.string "rex€" ⟨3, 6⟩) (hreceipts ▸ by decide)
  exact ⟨hbuffer, hstrings, hreceipts, hbuilds, hname, hstring⟩

end Changeset
end ChangesetReplay
