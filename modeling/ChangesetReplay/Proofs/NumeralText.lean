import ChangesetReplay.Number.Shortest

/-! # Numerals written and read back

The text of a well-formed numeral is read as that numeral. All numerals that are written are well
formed: those of integers, and both layouts of a finite binary64 number. -/

namespace ChangesetReplay

namespace Numeral

structure IsDigits (ds : List Char) : Prop where
  nonempty : ds ≠ []
  digits : ∀ c ∈ ds, c.isDigit = true

/-- Digits stand before the point, without a superfluous zero, and if there is a fraction also after
it. -/
structure WellFormed (n : Numeral) : Prop where
  whole : IsDigits n.whole
  leading : n.whole.head? = some '0' → n.whole = ['0']
  fraction : ∀ c ∈ n.fraction, c.isDigit = true

theorem isDigits_toDigits (n : Nat) : IsDigits (Nat.toDigits 10 n) :=
  ⟨Nat.toDigits_ne_nil, fun _ => Nat.isDigit_of_mem_toDigits (by decide) (by decide)⟩

theorem IsDigits.head {ds : List Char} (h : IsDigits ds) :
    ∃ c rest, ds = c :: rest ∧ c.isDigit = true := by
  cases ds with
  | nil => exact absurd rfl h.nonempty
  | cons c rest => exact ⟨c, rest, rfl, h.digits c (List.mem_cons_self ..)⟩

/-- Only zero is written with a zero in front. -/
theorem head?_toDigits {n : Nat} (h : 0 < n) : (Nat.toDigits 10 n).head? ≠ some '0' := by
  induction n using Nat.strongRecOn with
  | ind n ih =>
    by_cases hn : n < 10
    · rw [Nat.toDigits_of_lt_base hn]
      simpa using Nat.ne_of_gt h
    · have hhead := ih (n / 10) (by omega) (by omega)
      obtain ⟨c, rest, hc, -⟩ := (isDigits_toDigits (n / 10)).head
      rw [Nat.toDigits_of_base_le (by decide) (by omega), hc]
      rw [hc] at hhead
      exact hhead

/-- Digits end where something else begins. -/
theorem span_digits {ds rest : List Char} (digits : ∀ c ∈ ds, c.isDigit = true)
    (stop : ∀ c, rest.head? = some c → c.isDigit = false) :
    (ds ++ rest).takeWhile Char.isDigit = ds ∧ (ds ++ rest).dropWhile Char.isDigit = rest := by
  rw [List.takeWhile_append_of_pos digits, List.dropWhile_append_of_pos digits]
  cases rest with
  | nil => simp
  | cons c rest =>
    have hc := stop c rfl
    simp [hc]

def exponentPart (plus : Bool) : Option Int → List Char
  | none => []
  | some e => 'e' :: exponentText plus e

theorem exponent?_exponentPart (plus : Bool) (e : Option Int) :
    exponent? (exponentPart plus e) = some e := by
  cases e with
  | none => rfl
  | some e =>
    obtain ⟨d, ds, hds, hd⟩ := (isDigits_toDigits e.natAbs).head
    have hall : (d :: ds).all Char.isDigit = true :=
      hds ▸ List.all_eq_true.mpr (isDigits_toDigits e.natAbs).digits
    have hvalue : Nat.ofDigitChars 10 (d :: ds) 0 = e.natAbs :=
      hds ▸ Nat.ofDigitChars_ten_toDigits
    have hminus : d ≠ '-' := fun h => by simp [h] at hd
    have hplus : d ≠ '+' := fun h => by simp [h] at hd
    by_cases he : e < 0
    · obtain ⟨m, rfl⟩ : ∃ m : Nat, e = -m := ⟨e.natAbs, by omega⟩
      have hm : 0 < m := by omega
      rw [Int.natAbs_neg, Int.natAbs_natCast] at hds hvalue
      simp [exponentPart, exponentText, exponent?, hds, hm, hall, hvalue]
    · obtain ⟨m, rfl⟩ : ∃ m : Nat, e = m := ⟨e.natAbs, by omega⟩
      rw [Int.natAbs_natCast] at hds hvalue
      cases plus <;>
        simp [exponentPart, exponentText, exponent?, hds, he, hall, hvalue, hminus, hplus]

def fractionPart (ds : List Char) : List Char := if ds = [] then [] else '.' :: ds

theorem text_eq (plus : Bool) (n : Numeral) :
    n.text plus = (if n.negative then ['-'] else []) ++
      (n.whole ++ (fractionPart n.fraction ++ exponentPart plus n.exponent)) := by
  obtain ⟨negative, whole, fraction, exponent⟩ := n
  cases exponent <;> simp [text, fractionPart, exponentPart]

/-- What comes after the whole part begins with no digit. -/
theorem isDigit_head?_tail (plus : Bool) (ds : List Char) (e : Option Int) (c : Char)
    (h : (fractionPart ds ++ exponentPart plus e).head? = some c) : c.isDigit = false := by
  by_cases hds : ds = []
  · cases e with
    | none => simp [fractionPart, exponentPart, hds] at h
    | some e =>
      have hc : 'e' = c := by simpa [fractionPart, exponentPart, hds] using h
      exact hc ▸ rfl
  · have hc : '.' = c := by simpa [fractionPart, hds] using h
    exact hc ▸ rfl

def tail? (negative : Bool) (whole : List Char) : List Char → Option Numeral
  | '.' :: rest =>
    let fraction := rest.takeWhile Char.isDigit
    if fraction = [] then none
    else (exponent? (rest.dropWhile Char.isDigit)).map (⟨negative, whole, fraction, ·⟩)
  | rest => (exponent? rest).map (⟨negative, whole, [], ·⟩)

theorem ofText?_signed (negative : Bool) {cs : List Char} (h : cs.head? ≠ some '-') :
    ofText? ((if negative then ['-'] else []) ++ cs) =
      if cs.takeWhile Char.isDigit = [] ∨
        (cs.takeWhile Char.isDigit).head? = some '0' ∧ cs.takeWhile Char.isDigit ≠ ['0'] then none
      else tail? negative (cs.takeWhile Char.isDigit) (cs.dropWhile Char.isDigit) := by
  cases negative with
  | true => rfl
  | false =>
    cases cs with
    | nil => rfl
    | cons d ds =>
      have hd : d ≠ '-' := fun hd => h (congrArg some hd)
      show ofText? (d :: ds) = _
      unfold ofText?
      split
      next negative cs hsign =>
        split at hsign
        next hcons => exact absurd (List.cons.inj hcons).1 hd
        next =>
          cases hsign
          rfl

theorem tail?_parts (negative plus : Bool) (whole : List Char) {fraction : List Char}
    (h : ∀ c ∈ fraction, c.isDigit = true) (e : Option Int) :
    tail? negative whole (fractionPart fraction ++ exponentPart plus e) =
      some ⟨negative, whole, fraction, e⟩ := by
  have hexponent := exponent?_exponentPart plus e
  by_cases hf : fraction = []
  · subst hf
    cases e with
    | none => rfl
    | some e => exact congrArg (Option.map (Numeral.mk negative whole [])) hexponent
  · obtain ⟨htake, hdrop⟩ := span_digits h (isDigit_head?_tail plus [] e)
    have htake : (fraction ++ exponentPart plus e).takeWhile Char.isDigit = fraction := htake
    have hdrop : (fraction ++ exponentPart plus e).dropWhile Char.isDigit = exponentPart plus e :=
      hdrop
    rw [fractionPart, if_neg hf, List.cons_append]
    simp only [tail?, htake, hdrop, if_neg hf, hexponent]
    rfl

/-- The text of a well-formed numeral is read as that numeral. -/
theorem ofText?_text {n : Numeral} (h : n.WellFormed) (plus : Bool) :
    ofText? (n.text plus) = some n := by
  obtain ⟨htake, hdrop⟩ :=
    span_digits h.whole.digits (isDigit_head?_tail plus n.fraction n.exponent)
  have hplain : ¬(n.whole = [] ∨ n.whole.head? = some '0' ∧ n.whole ≠ ['0']) := by
    rintro (hnil | ⟨hzero, hmore⟩)
    · exact h.whole.nonempty hnil
    · exact hmore (h.leading hzero)
  have hunsigned : (n.whole ++ (fractionPart n.fraction ++ exponentPart plus n.exponent)).head? ≠
      some '-' := by
    obtain ⟨d, ds, hds, hd⟩ := h.whole.head
    rw [hds]
    rintro ⟨⟩
    exact absurd hd (by decide)
  rw [text_eq, ofText?_signed n.negative hunsigned, htake, hdrop, if_neg hplain,
    tail?_parts n.negative plus n.whole h.fraction]

theorem wellFormed_of_toDigits (negative : Bool) (n : Nat) :
    WellFormed ⟨negative, Nat.toDigits 10 n, [], none⟩ where
  whole := isDigits_toDigits n
  leading h := by
    by_cases hn : n = 0
    · simp [hn]
    · exact absurd h (head?_toDigits (Nat.pos_of_ne_zero hn))
  fraction := by simp

theorem wellFormed_ofNat (n : Nat) : (ofNat n).WellFormed := wellFormed_of_toDigits false n

theorem wellFormed_ofInt (n : Int) : (ofInt n).WellFormed := wellFormed_of_toDigits _ n.natAbs

@[simp] theorem int?_ofNat (n : Nat) : (ofNat n).int? = some (n : Int) := by
  simp [int?, ofNat]

@[simp] theorem int?_ofInt (n : Int) : (ofInt n).int? = some n := by
  by_cases hn : n < 0
  · obtain ⟨m, rfl⟩ : ∃ m : Nat, n = -m := ⟨n.natAbs, by omega⟩
    have hm : m ≠ 0 := by omega
    simp [int?, ofInt, hm]
  · obtain ⟨m, rfl⟩ : ∃ m : Nat, n = m := ⟨n.natAbs, by omega⟩
    simp [int?, ofInt, hn]

end Numeral

namespace Binary64
variable {tie : Tie} {r p k : Nat}

theorem units_pos (h : 0 < r) : 0 < units r := by
  unfold units
  split
  · exact h
  · exact Nat.mul_pos (Nat.add_pos_left (by decide) _) (Nat.pow_pos (by decide))

/-- Zero rounds to no positive number. -/
theorem roundsTo_zero {den : Nat} (h : 0 < r) (hden : 0 < den) : roundsTo r 0 den = false := by
  have hlow : 0 < (units (r - 1) + units r) * den :=
    Nat.mul_pos (Nat.add_pos_right _ (units_pos h)) hden
  have hle : ¬(units (r - 1) + units r) * den ≤ 2 * 0 := by omega
  have hlt : ¬(units (r - 1) + units r) * den < 2 * 0 := by omega
  simp only [roundsTo, hle, hlt, false_and, decide_false, ite_self]

/-- A decimal found on a grid rounds to the number it was sought for. -/
theorem onGrid?_fits (h : onGrid? tie r p = some k) :
    roundsTo r (k * Nat.pow 10 p) decimalUnit = true := by
  unfold onGrid? at h
  simp only at h
  split at h
  · simp at h
  · next hbelow _ => exact Option.some.inj h ▸ hbelow
  · next _ habove => exact Option.some.inj h ▸ habove
  · next hbelow habove =>
    split at h
    · exact Option.some.inj h ▸ hbelow
    split at h
    · exact Option.some.inj h ▸ habove
    split at h
    · exact Option.some.inj h ▸ habove
    · have hk := Option.some.inj h
      split at hk
      · exact hk ▸ hbelow
      · exact hk ▸ habove

theorem decimalUnit_pos : 0 < decimalUnit := by
  have hpow (n : Nat) : 0 < Nat.pow 5 n := Nat.pow_pos (by decide)
  unfold decimalUnit
  apply hpow

theorem onGrid?_pos (h : 0 < r) (hk : onGrid? tie r p = some k) : 0 < k := by
  have hfits := onGrid?_fits hk
  rcases Nat.eq_zero_or_pos k with rfl | hpos
  · rw [Nat.zero_mul, roundsTo_zero h decimalUnit_pos] at hfits
    exact absurd hfits Bool.false_ne_true
  · exact hpos

/-- A positive number has a positive decimal. -/
theorem shortest_pos (h : 0 < r) : 0 < (shortest tie r).digits := by
  unfold shortest
  simp only
  generalize hfound : List.findSome? _ (List.range 17) = found
  cases found with
  | none => exact Nat.mul_pos (units_pos h) decimalUnit_pos
  | some d =>
    obtain ⟨n, -, hn⟩ := List.exists_of_findSome?_eq_some hfound
    obtain ⟨k, hk, rfl⟩ := Option.map_eq_some_iff.mp hn
    exact onGrid?_pos h hk

end Binary64

namespace NumberLayout
open Numeral

/-- Digits that begin with no zero. -/
structure IsSignificand (ds : List Char) : Prop extends IsDigits ds where
  leading : ds.head? ≠ some '0'

/-- What is left out are zeros at the end. -/
theorem significant_append (ds : List Char) :
    ∃ zeros, significant ds ++ zeros = ds ∧ ∀ c ∈ zeros, c = '0' := by
  refine ⟨(ds.reverse.takeWhile (· = '0')).reverse, ?_, fun c hc => ?_⟩
  · have hsplit := List.takeWhile_append_dropWhile (p := (· = '0')) (l := ds.reverse)
    rw [significant, ← List.reverse_append, hsplit, List.reverse_reverse]
  · have hzero := List.all_eq_true.mp List.all_takeWhile c (List.mem_reverse.mp hc)
    simpa using hzero

theorem IsSignificand.significant {ds : List Char} (h : IsSignificand ds) :
    IsSignificand (significant ds) := by
  obtain ⟨zeros, hds, hzeros⟩ := significant_append ds
  have hhead : (NumberLayout.significant ds).head? = ds.head? := by
    cases hs : NumberLayout.significant ds with
    | cons c rest => rw [← hds, hs]; rfl
    | nil =>
      -- else there were only zeros
      obtain ⟨c, rest, hcons, -⟩ := h.head
      rw [hs, List.nil_append] at hds
      have hc : c = '0' := hzeros c (by simp [hds, hcons])
      exact absurd (by simp [hcons, hc]) h.leading
  refine ⟨⟨fun hnil => ?_, fun c hc => ?_⟩, hhead ▸ h.leading⟩
  · obtain ⟨c, rest, hcons, -⟩ := h.head
    rw [hnil, hcons] at hhead
    exact absurd hhead (by simp)
  · exact h.digits c (hds ▸ List.mem_append_left _ hc)

theorem wellFormed_place {ds : List Char} (h : IsSignificand ds) (negative : Bool) (point : Int) :
    (place negative ds point).WellFormed := by
  have hzeros : ∀ {n : Nat}, ∀ c ∈ List.replicate n '0', c.isDigit = true := fun c hc =>
    List.eq_of_mem_replicate hc ▸ rfl
  unfold place
  split
  · refine ⟨⟨by simp, by simp⟩, fun _ => rfl, fun c hc => ?_⟩
    rcases List.mem_append.mp hc with hc | hc
    · exact hzeros c hc
    · exact h.digits c hc
  · next hpoint =>
    obtain ⟨d, rest, rfl, hd⟩ := h.head
    obtain ⟨n, hn⟩ : ∃ n, point.natAbs = n + 1 := ⟨point.natAbs - 1, by omega⟩
    have hleading : d ≠ '0' := fun hd => h.leading (by simp [hd])
    refine ⟨⟨by simp [hn], fun c hc => ?_⟩, fun hc => ?_, fun c hc => ?_⟩
    · rcases List.mem_append.mp hc with hc | hc
      · exact h.digits c (List.mem_of_mem_take hc)
      · exact hzeros c hc
    · exact absurd (by simpa [hn] using hc) hleading
    · simp only at hc
      split at hc
      · exact List.mem_singleton.mp hc ▸ rfl
      · exact h.digits c (List.mem_of_mem_drop hc)

/-- Every finite number is written as a well-formed numeral. -/
theorem wellFormed_numeral (layout : NumberLayout) (negative : Bool) (r : Binary64.Rank) :
    (layout.numeral negative r).WellFormed := by
  unfold numeral
  split
  · exact ⟨⟨by simp, by simp⟩, fun _ => rfl, by simp⟩
  · next hr =>
    have hpos : 0 < (Binary64.shortest layout.tie r).digits :=
      Binary64.shortest_pos (Nat.pos_of_ne_zero hr)
    have h : IsSignificand (Nat.toDigits 10 (Binary64.shortest layout.tie r).digits) :=
      ⟨isDigits_toDigits _, head?_toDigits hpos⟩
    have hs := h.significant
    simp only
    split
    · exact wellFormed_place hs ..
    · obtain ⟨d, rest, hcons, hd⟩ := hs.head
      have hleading : d ≠ '0' := fun hd => hs.leading (by simp [hcons, hd])
      rw [hcons]
      refine ⟨⟨by simp, by simpa using hd⟩, fun hc => ?_, fun c hc => ?_⟩
      · exact absurd (by simpa using hc) hleading
      · exact hs.digits c (hcons ▸ List.mem_of_mem_drop hc)

end NumberLayout

end ChangesetReplay
