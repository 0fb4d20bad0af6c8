import ChangesetReplay.Log.Changeset

/-! # Ranges of bytes

A range of a text is given in bytes, of which a character takes one to four. The range spells a
string if the text is that string between two others, and the first of them takes the bytes before
the range. It is resolved to this string, and refused if there is none, which is to say that it
reaches past the end of the text, or begins or ends inside a character. -/

namespace ChangesetReplay

namespace Text
variable {c : Char} {cs taken rest before s : List Char} {n offset size : Nat}

def byteSize (cs : List Char) : Nat := (String.ofList cs).utf8ByteSize

@[simp] theorem byteSize_nil : byteSize [] = 0 := by
  rw [byteSize, String.ofList_nil, String.utf8ByteSize_empty]

@[simp] theorem byteSize_cons : byteSize (c :: cs) = c.utf8Size + byteSize cs := by
  rw [byteSize, String.ofList_cons, String.utf8ByteSize_append, String.utf8ByteSize_singleton,
    byteSize]

@[simp] theorem byteSize_toList (s : String) : byteSize s.toList = s.utf8ByteSize := by
  rw [byteSize, String.ofList_toList]

@[simp] theorem takeBytes?_zero : takeBytes? 0 cs = some ([], cs) := by
  cases cs <;> rfl

theorem takeBytes?_cons : takeBytes? (c.utf8Size + n) (c :: cs) =
    (takeBytes? n cs).map fun split => (c :: split.1, split.2) := by
  obtain ⟨m, hm⟩ := Nat.exists_eq_add_one.mpr (Nat.add_pos_left c.utf8Size_pos n)
  rw [hm, takeBytes?, if_pos (hm ▸ Nat.le_add_right ..), ← hm, Nat.add_sub_cancel_left]

theorem takeBytes?_append : takeBytes? (byteSize before + n) (before ++ cs) =
    (takeBytes? n cs).map fun split => (before ++ split.1, split.2) := by
  induction before with
  | nil => simp
  | cons c before ih =>
    rw [byteSize_cons, Nat.add_assoc, List.cons_append, takeBytes?_cons, ih, Option.map_map]
    rfl

theorem of_takeBytes?_eq_some (h : takeBytes? n cs = some (taken, rest)) :
    cs = taken ++ rest ∧ byteSize taken = n := by
  fun_induction takeBytes? n cs generalizing taken with
  | case1 cs =>
    cases h
    exact ⟨rfl, byteSize_nil⟩
  | case2 n => cases h
  | case3 n c cs hfits ih =>
    obtain ⟨⟨taken, rest⟩, hsplit, heq⟩ := Option.map_eq_some_iff.mp h
    cases heq
    obtain ⟨rfl, hsize⟩ := ih hsplit
    exact ⟨rfl, by rw [byteSize_cons, hsize, Nat.add_sub_cancel' hfits]⟩
  | case4 n c cs hsplits => cases h

theorem takeBytes?_eq_some_iff :
    takeBytes? n cs = some (taken, rest) ↔ cs = taken ++ rest ∧ byteSize taken = n := by
  refine ⟨of_takeBytes?_eq_some, ?_⟩
  rintro ⟨rfl, rfl⟩
  rw [← Nat.add_zero (byteSize taken), takeBytes?_append, takeBytes?_zero]
  simp

/-- After `n` bytes of the text, a character has begun and not ended. -/
def Inside (cs : List Char) (n : Nat) : Prop :=
  ∃ before c after, cs = before ++ c :: after ∧
    byteSize before < n ∧ n < byteSize before + c.utf8Size

theorem inside_cons_iff : Inside (c :: cs) (c.utf8Size + n) ↔ Inside cs n := by
  constructor
  · rintro ⟨_ | ⟨b, before⟩, d, after, heq, hlow, hhigh⟩
    · cases heq
      rw [byteSize_nil] at hhigh
      omega
    · cases heq
      rw [byteSize_cons] at hlow hhigh
      exact ⟨before, d, after, rfl, by omega, by omega⟩
  · rintro ⟨before, d, after, rfl, hlow, hhigh⟩
    refine ⟨c :: before, d, after, rfl, ?_, ?_⟩ <;> rw [byteSize_cons] <;> omega

/-- Bytes cannot be taken off if there are too few, or if that would split a character. -/
theorem takeBytes?_eq_none_iff : takeBytes? n cs = none ↔ byteSize cs < n ∨ Inside cs n := by
  fun_induction takeBytes? n cs with
  | case1 cs => simp [Inside]
  | case2 n => simp
  | case3 n c cs hfits ih =>
    obtain ⟨m, hm⟩ := Nat.exists_eq_add_of_le hfits
    simp only [Nat.succ_eq_add_one, hm, Nat.add_sub_cancel_left] at ih ⊢
    rw [Option.map_eq_none_iff, ih, inside_cons_iff, byteSize_cons, Nat.add_lt_add_iff_left]
  | case4 n c cs hsplits =>
    have hinside : Inside (c :: cs) (n + 1) :=
      ⟨[], c, cs, rfl, by simp, by simpa using hsplits⟩
    exact iff_of_true rfl (.inr hinside)

theorem slice?_eq_some_iff : slice? cs offset size = some s ↔
    ∃ before after, cs = before ++ s ++ after ∧ byteSize before = offset ∧ byteSize s = size := by
  simp only [slice?, Option.bind_eq_bind, Option.bind_eq_some_iff, Option.some.injEq, Prod.exists,
    takeBytes?_eq_some_iff]
  constructor
  · rintro ⟨before, _, ⟨rfl, hoffset⟩, _, after, ⟨rfl, hsize⟩, rfl⟩
    exact ⟨before, after, (List.append_assoc ..).symm, hoffset, hsize⟩
  · rintro ⟨before, after, rfl, hoffset, hsize⟩
    exact ⟨before, s ++ after, ⟨List.append_assoc .., hoffset⟩, s, after, ⟨rfl, hsize⟩, rfl⟩

theorem slice?_append :
    slice? (before ++ rest) (byteSize before) size = (takeBytes? size rest).map Prod.fst := by
  have hbefore : takeBytes? (byteSize before) (before ++ rest) = some (before, rest) :=
    takeBytes?_eq_some_iff.mpr ⟨rfl, rfl⟩
  simp only [slice?, hbefore, Option.bind_eq_bind, Option.bind_some]
  cases takeBytes? size rest with
  | none => rfl
  | some split => rfl

/-- There is no part if either end of it is not between characters. -/
theorem slice?_eq_none_iff : slice? cs offset size = none ↔
    byteSize cs < offset + size ∨ Inside cs offset ∨ Inside cs (offset + size) := by
  -- A part is there exactly if the text can be divided at both ends of it.
  have hends : slice? cs offset size = none ↔
      takeBytes? offset cs = none ∨ takeBytes? (offset + size) cs = none := by
    cases hoffset : takeBytes? offset cs with
    | none => simp [slice?, hoffset]
    | some split =>
      obtain ⟨rfl, rfl⟩ := takeBytes?_eq_some_iff.mp hoffset
      simp [slice?_append, takeBytes?_append]
  rw [hends, takeBytes?_eq_none_iff, takeBytes?_eq_none_iff]
  constructor
  · rintro ((hpast | hinside) | (hpast | hinside))
    · exact .inl (Nat.lt_add_right size hpast)
    · exact .inr (.inl hinside)
    · exact .inl hpast
    · exact .inr (.inr hinside)
  · rintro (hpast | hinside | hinside)
    · exact .inr (.inl hpast)
    · exact .inl (.inr hinside)
    · exact .inr (.inr hinside)

end Text

namespace StringRange

/-- The text is `s` between two others, the first of which takes the bytes before the range, and `s`
those of the range. -/
def Spells (range : StringRange) (text s : String) : Prop :=
  ∃ before after, text = before ++ s ++ after ∧
    before.utf8ByteSize = range.offset.toNat ∧ s.utf8ByteSize = range.size.toNat

/-- The range ends after the text, or begins or ends inside a character. Where it ends is not
reduced to 32 bits. -/
inductive Faulty (range : StringRange) (text : String) : Prop where
  | pastEnd (h : text.utf8ByteSize < range.offset.toNat + range.size.toNat)
  | beginsInside (h : Text.Inside text.toList range.offset.toNat)
  | endsInside (h : Text.Inside text.toList (range.offset.toNat + range.size.toNat))

variable {range : StringRange} {text s : String}

theorem Spells.append (h : range.Spells text s) (added : String) :
    range.Spells (text ++ added) s := by
  obtain ⟨before, after, rfl, hoffset, hsize⟩ := h
  exact ⟨before, after ++ added, String.append_assoc, hoffset, hsize⟩

theorem slice?_eq_some_iff :
    Text.slice? text.toList range.offset.toNat range.size.toNat = some s.toList ↔
      range.Spells text s := by
  rw [Text.slice?_eq_some_iff]
  constructor
  · rintro ⟨before, after, htext, hoffset, hsize⟩
    refine ⟨.ofList before, .ofList after, ?_, hoffset, by rwa [Text.byteSize_toList] at hsize⟩
    rw [← String.toList_inj, htext]
    simp
  · rintro ⟨before, after, rfl, hoffset, hsize⟩
    exact ⟨before.toList, after.toList, by simp, by simpa using hoffset, by simpa using hsize⟩

theorem slice?_eq_none_iff :
    Text.slice? text.toList range.offset.toNat range.size.toNat = none ↔ range.Faulty text := by
  rw [Text.slice?_eq_none_iff, Text.byteSize_toList]
  constructor
  · rintro (h | h | h)
    · exact .pastEnd h
    · exact .beginsInside h
    · exact .endsInside h
  · rintro (h | h | h)
    · exact .inl h
    · exact .inr (.inl h)
    · exact .inr (.inr h)

theorem faulty_iff : range.Faulty text ↔ ¬∃ s, range.Spells text s := by
  simp only [← slice?_eq_none_iff, ← slice?_eq_some_iff]
  cases Text.slice? text.toList range.offset.toNat range.size.toNat with
  | none => simp
  | some cs =>
    have hspelled : ∃ s : String, some cs = some s.toList := ⟨.ofList cs, by simp⟩
    exact iff_of_false (Option.some_ne_none cs) (not_not_intro hspelled)

end StringRange

namespace Changeset
variable {c : Changeset} {range : StringRange} {s : String} {cause : Cause}

theorem string_ok_iff : c.string range = .ok s ↔ range.Spells c.buffer s := by
  rw [← StringRange.slice?_eq_some_iff, string]
  cases Text.slice? c.buffer.toList range.offset.toNat range.size.toNat with
  | none => simp
  | some cs =>
    rw [Except.ok.injEq, Option.some.injEq, ← String.toList_inj, String.toList_ofList]

theorem string_error_iff : c.string range = .error cause ↔
    cause = .badStringRange range.offset range.size ∧ range.Faulty c.buffer := by
  rw [← StringRange.slice?_eq_none_iff, string]
  cases Text.slice? c.buffer.toList range.offset.toNat range.size.toNat with
  | none => simp [eq_comm]
  | some cs => simp

/-- A range is resolved to the string that it spells in the buffer. If there is none, then the range
is faulty, and it is refused with the numbers that it is given by. -/
theorem string_ranges_exact (c : Changeset) (range : StringRange) :
    (∀ s, c.string range = .ok s ↔ range.Spells c.buffer s) ∧
    (∀ cause, c.string range = .error cause ↔
      cause = .badStringRange range.offset range.size ∧ ¬∃ s, range.Spells c.buffer s) ∧
    ((¬∃ s, range.Spells c.buffer s) ↔ range.Faulty c.buffer) := by
  refine ⟨fun s => string_ok_iff, fun cause => ?_, StringRange.faulty_iff.symm⟩
  rw [string_error_iff, StringRange.faulty_iff]

/-- A range of no bytes can be inside a character too. -/
example : (⟨1, [], "né", []⟩ : Changeset).string ⟨2, 0⟩ = .error (.badStringRange 2 0) := by rfl

end Changeset
end ChangesetReplay
