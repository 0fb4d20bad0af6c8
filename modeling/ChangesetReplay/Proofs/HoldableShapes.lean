import ChangesetReplay.Proofs.JsonShapes

/-! # Shapes that can be held back

A value that is held back is looked at as a whole. So every number in it has to be read as a finite
binary64 number, even where an integer is wanted later, and no part of it may be nested too deep.
Integers of 64 bits pass: reading one never rounds it out of range. -/

namespace ChangesetReplay

namespace Binary64
variable {num den k r : Nat}

theorem roundHalfEven_le (num den : Nat) : roundHalfEven num den ≤ num / den + 1 := by
  unfold roundHalfEven
  simp only
  repeat' split
  all_goals omega

theorem pos_pow_two (k : Nat) : 0 < Nat.pow 2 k := Nat.pow_pos (by decide)

/-- A number has at most 53 binary digits before the grid on which it is rounded. -/
theorem div_pow_log2_lt (q : Nat) : q / Nat.pow 2 (Nat.log2 q - 52) < Nat.pow 2 53 := by
  rw [Nat.div_lt_iff_lt_mul (pos_pow_two _)]
  have hlog : q < Nat.pow 2 (Nat.log2 q + 1) := Nat.lt_log2_self
  have hmono : Nat.pow 2 (Nat.log2 q + 1) ≤ Nat.pow 2 (53 + (Nat.log2 q - 52)) :=
    Nat.pow_le_pow_right (by decide) (by omega)
  have hadd : Nat.pow 2 (53 + (Nat.log2 q - 52)) = Nat.pow 2 53 * Nat.pow 2 (Nat.log2 q - 52) :=
    Nat.pow_add ..
  exact Nat.lt_of_lt_of_eq (Nat.lt_of_lt_of_le hlog hmono) hadd

theorem nearest?_eq_some (h : num / den < Nat.pow 2 k) (hk : k ≤ 2000) :
    ∃ r, nearest? num den = some r ∧ r.val ≤ (k + 2) * perExponent := by
  have hlog : Nat.log2 (num / den) ≤ k := by
    by_cases hq : num / den = 0
    · rw [hq]
      exact Nat.zero_le k
    · exact Nat.le_of_lt ((Nat.log2_lt hq).mpr h)
  have hround := roundHalfEven_le num (den * Nat.pow 2 (Nat.log2 (num / den) - 52))
  rw [← Nat.div_div_eq_div_mul] at hround
  have hdigits := div_pow_log2_lt (num / den)
  have hgrid : (Nat.log2 (num / den) - 52) * perExponent ≤ k * perExponent :=
    Nat.mul_le_mul_right _ (by omega)
  have hrange : (k + 2) * perExponent ≤ 2002 * perExponent := Nat.mul_le_mul_right _ (by omega)
  have hadd : (k + 2) * perExponent = k * perExponent + 2 * perExponent := Nat.add_mul ..
  have hpow : Nat.pow 2 53 = 2 * perExponent := rfl
  have hlt : 2002 * perExponent < rankCount := by decide
  have hbound : (Nat.log2 (num / den) - 52) * perExponent +
      roundHalfEven num (den * Nat.pow 2 (Nat.log2 (num / den) - 52)) ≤ (k + 2) * perExponent := by
    omega
  refine ⟨⟨_, Nat.lt_of_le_of_lt (Nat.le_trans hbound hrange) hlt⟩, ?_, hbound⟩
  exact dif_pos (Nat.lt_of_le_of_lt (Nat.le_trans hbound hrange) hlt)

theorem units_lt (h : r ≤ k * perExponent) : units r < Nat.pow 2 (53 + k) := by
  have hdiv : r / perExponent ≤ k := Nat.div_le_of_le_mul (Nat.mul_comm k _ ▸ h)
  have hmono : Nat.pow 2 (r / perExponent - 1) ≤ Nat.pow 2 k :=
    Nat.pow_le_pow_right (by decide) (by omega)
  have hone : 1 ≤ Nat.pow 2 k := pos_pow_two k
  have hadd : Nat.pow 2 (53 + k) = 2 * perExponent * Nat.pow 2 k := Nat.pow_add ..
  have hmod : r % perExponent < perExponent := Nat.mod_lt _ (by decide)
  rw [hadd]
  unfold units
  split
  · have hle := Nat.mul_le_mul_left (2 * perExponent) hone
    omega
  · have hpos : 0 < Nat.pow 2 k := pos_pow_two k
    calc (perExponent + r % perExponent) * Nat.pow 2 (r / perExponent - 1)
        ≤ (perExponent + r % perExponent) * Nat.pow 2 k := Nat.mul_le_mul_left _ hmono
      _ < 2 * perExponent * Nat.pow 2 k := Nat.mul_lt_mul_of_pos_right (by omega) hpos

end Binary64

namespace Numeral
open Binary64

theorem le_ofDigitChars (s : Nat) (ds : List Char) : s ≤ Nat.ofDigitChars 10 ds s := by
  induction ds generalizing s with
  | nil => exact Nat.le_refl s
  | cons d ds ih =>
    have hrest := ih (10 * s + (d.toNat - '0'.toNat))
    rw [Nat.ofDigitChars_cons]
    omega

/-- Digits are taken to the last one, as long as they make no more than 64 bits. -/
theorem absorb_eq {s : Nat} {ds : List Char} (h : Nat.ofDigitChars 10 ds s < UInt64.size) :
    absorb s ds = (Nat.ofDigitChars 10 ds s, ds.length) := by
  induction ds generalizing s with
  | nil => rfl
  | cons d ds ih =>
    rw [Nat.ofDigitChars_cons] at h ⊢
    have hnext : s * 10 + (d.toNat - '0'.toNat) = 10 * s + (d.toNat - '0'.toNat) := by omega
    have hlt := Nat.lt_of_le_of_lt (le_ofDigitChars _ ds) h
    rw [absorb, hnext, if_pos hlt, ih h, List.length_cons]

theorem mul_pow_lt {n a : Nat} (h : n < Nat.pow 2 a) (b : Nat) :
    n * Nat.pow 2 b < Nat.pow 2 (a + b) := by
  have hadd : Nat.pow 2 (a + b) = Nat.pow 2 a * Nat.pow 2 b := Nat.pow_add ..
  rw [hadd]
  exact Nat.mul_lt_mul_of_pos_right h (pos_pow_two b)

theorem ofNat?_eq_some {n : Nat} (h : n < UInt64.size) :
    ∃ x, ofNat? n = some x ∧ x.val ≤ (64 + 1074 + 2) * perExponent := by
  have hlt : n * unitsInOne / 1 < Nat.pow 2 (64 + 1074) := by
    rw [Nat.div_one]
    unfold unitsInOne
    apply mul_pow_lt h
  exact nearest?_eq_some hlt (by decide)

/-- One is a number without rounding. -/
theorem tenPow?_zero : ∃ one, tenPow? 0 = some one ∧ units one = unitsInOne :=
  ⟨⟨1023 * perExponent, by decide⟩, by decide +kernel, by decide +kernel⟩

/-- Scaling by nothing is a multiplication by one. -/
theorem scale?_zero {x : Rank} {k : Nat} (h : x.val ≤ k * perExponent) (hk : 53 + k ≤ 2000)
    (steps : Nat) : ∃ y, scale? x 0 (steps + 1) = some y := by
  obtain ⟨one, hone, hunits⟩ := tenPow?_zero
  have hpos : 0 < unitsInOne := by
    unfold unitsInOne
    apply pos_pow_two
  have hlt : units x * unitsInOne / unitsInOne < Nat.pow 2 (53 + k) := by
    rw [Nat.mul_div_cancel _ hpos]
    exact units_lt h
  obtain ⟨y, hy, -⟩ := nearest?_eq_some hlt hk
  have hmul : mul? x one = some y := by rw [mul?, hunits, hy]
  have hexponent : (0 : Int).natAbs ≤ 308 := by decide
  refine ⟨y, ?_⟩
  rw [scale?, if_pos hexponent, Int.natAbs_zero, hone, Option.bind_eq_bind, Option.bind_some,
    if_neg (Int.lt_irrefl 0), hmul]

/-- The number of a numeral without fraction and exponent, whose digits are all taken. -/
theorem toBinary64?_of_absorb {n : Numeral} {s : Nat} {x y : Rank}
    (hwhole : absorb 0 n.whole = (s, n.whole.length)) (hfraction : n.fraction = [])
    (hexponent : n.exponent = none) (hx : ofNat? s = some x) (hy : scale? x 0 4 = some y) :
    n.toBinary64? = some (.finite n.negative y) := by
  have hzero : ((n.whole.length - n.whole.length : Nat) : Int) - ((0 : Nat) : Int) +
      (none : Option Int).getD 0 = 0 := by
    rw [Nat.sub_self]
    rfl
  rw [toBinary64?, hwhole, hfraction, hexponent]
  -- `simp` would have the kernel evaluate the scaling
  show (do
    let x ← ofNat? s
    let y ← scale? x (((n.whole.length - n.whole.length : Nat) : Int) - ((0 : Nat) : Int) +
      (none : Option Int).getD 0) 4
    some (Binary64.finite n.negative y)) = _
  rw [hzero, hx, Option.bind_eq_bind, Option.bind_some, hy]
  rfl

theorem toBinary64?_isSome (negative : Bool) {n : Nat} (h : n < UInt64.size) :
    (Numeral.toBinary64? ⟨negative, Nat.toDigits 10 n, [], none⟩).isSome = true := by
  have hdigits : Nat.ofDigitChars 10 (Nat.toDigits 10 n) 0 = n := Nat.ofDigitChars_ten_toDigits
  have habsorb : absorb 0 (Nat.toDigits 10 n) = (n, (Nat.toDigits 10 n).length) := by
    rw [absorb_eq (by rwa [hdigits]), hdigits]
  obtain ⟨x, hx, hbound⟩ := ofNat?_eq_some h
  obtain ⟨y, hy⟩ := scale?_zero hbound (by decide) 3
  rw [toBinary64?_of_absorb habsorb rfl rfl hx hy, Option.isSome_some]

end Numeral

namespace Json
variable {room : Nat}

@[simp] theorem holdable_null : Json.null.holdable room = true := rfl

@[simp] theorem holdable_bool (b : Bool) : (Json.bool b).holdable room = true := rfl

@[simp] theorem holdable_ofString (s : String) : (ofString s).holdable room = true := by
  simp [ofString, holdable, unescape?_escape]

theorem holdable_ofOption {α : Type} {write : α → Json} (h : ∀ a, (write a).holdable room = true)
    (o : Option α) : (ofOption write o).holdable room = true := by
  cases o with
  | none => rfl
  | some a => exact h a

theorem holdable_ofNat {n : Nat} (h : n < UInt64.size) : (ofNat n).holdable room = true :=
  Numeral.toBinary64?_isSome false h

theorem holdable_ofInt {n : Int} (h : n.natAbs < UInt64.size) : (ofInt n).holdable room = true :=
  Numeral.toBinary64?_isSome _ h

theorem holdableItems_iff {js : List Json} :
    holdableItems room js = true ↔ ∀ j ∈ js, j.holdable room = true := by
  induction js with
  | nil => simp [holdableItems]
  | cons j js ih => simp [holdableItems, ih]

theorem holdableMembers_iff {ms : List (List Char × Json)} :
    holdableMembers room ms = true ↔
      ∀ m ∈ ms, (unescape? m.1).isSome = true ∧ m.2.holdable room = true := by
  induction ms with
  | nil => simp [holdableMembers]
  | cons m ms ih => simp [holdableMembers, ih]

/-- A list takes one level, and so does a record. -/
theorem holdable_map {α : Type} {l : List α} {write : α → Json}
    (h : ∀ a ∈ l, (write a).holdable room = true) :
    (array (l.map write)).holdable (room + 1) = true := by
  have hitems : holdableItems room (l.map write) = true := by
    rw [holdableItems_iff]
    intro j hj
    obtain ⟨a, ha, rfl⟩ := List.mem_map.mp hj
    exact h a ha
  simpa [holdable] using hitems

@[simp] theorem holdable_ofMembers {ms : List (String × Json)} :
    (ofMembers ms).holdable (room + 1) = true ↔ ∀ m ∈ ms, m.2.holdable room = true := by
  have hmembers : (ofMembers ms).holdable (room + 1) =
      holdableMembers room (ms.map fun m => member m.1 m.2) := rfl
  simp only [hmembers, holdableMembers_iff, List.forall_mem_map, member, unescape?_escape,
    Option.isSome_some, true_and]

@[simp] theorem holdable_ofTag (tag : String) : (ofTag tag).holdable (room + 1) = true := by
  simp [ofTag]

@[simp] theorem holdable_ofTagged {tag : String} {content : Json} :
    (ofTagged tag content).holdable (room + 1) = true ↔ content.holdable room = true := by
  simp [ofTagged]

@[simp] theorem holdable_uint8 (n : UInt8) : (ofNat n.toNat).holdable room = true :=
  holdable_ofNat (Nat.lt_trans n.toNat_lt (by decide))

@[simp] theorem holdable_uint32 (n : UInt32) : (ofNat n.toNat).holdable room = true :=
  holdable_ofNat (Nat.lt_trans n.toNat_lt (by decide))

@[simp] theorem holdable_uint64 (n : UInt64) : (ofNat n.toNat).holdable room = true :=
  holdable_ofNat n.toNat_lt

@[simp] theorem holdable_int32 (n : Int32) : (ofInt n.toInt).holdable room = true := by
  have hlow := n.le_toInt
  have hhigh := n.toInt_lt
  have hsize : UInt64.size = 18446744073709551616 := rfl
  exact holdable_ofInt (by omega)

@[simp] theorem holdable_int64 (n : Int64) : (ofInt n.toInt).holdable room = true := by
  have hlow := n.le_toInt
  have hhigh := n.toInt_lt
  have hsize : UInt64.size = 18446744073709551616 := rfl
  exact holdable_ofInt (by omega)

end Json

end ChangesetReplay
