import ChangesetReplay.Proofs.IssuedKeys
import ChangesetReplay.Proofs.StoreHistories

/-! # Keys along histories

When a store is restored, its counters are restored along with the rest, whatever becomes of the
floats in the fields. So keys are given out in ascending order along a history, and none is ever
taken over. -/

namespace ChangesetReplay

namespace Turn

def issued? (s : Store) : Turn → Option Key
  | operate op => op.issued? s
  | restore _ => none

def issued (s : Store) : List Turn → List Key
  | [] => []
  | turn :: rest => (turn.issued? s).toList ++ issued (turn.after s) rest

variable {s : Store} {x : Key} {turn : Turn} {turns earlier later : List Turn}

theorem issued_append :
    issued s (earlier ++ later) = issued s earlier ++ issued (afterAll s earlier) later := by
  induction earlier generalizing s with
  | nil => rfl
  | cons turn rest ih =>
    rw [List.cons_append, issued, ih, issued, List.append_assoc]
    rfl

/-- What a turn leaves has its keys from before or from the counters. -/
theorem inherits (hs : s.Sound) (hroom : s.HasRoom) (turn : Turn) : s.Inherits (turn.after s) := by
  cases turn with
  | operate op =>
    show s.Inherits (op.after s)
    rcases op.change s with hsame | hchange
    · rw [hsame]
      exact .refl
    · exact hchange.inherits hroom
  | restore transport =>
    rcases after_restore_cases s transport with hsame | hrestored
    · rw [hsame]
      exact .refl
    · exact (hrestored.sameOutline hs.named).inherits

theorem afterAll_inherits (hs : s.Sound) (hroom : Roomy s turns) :
    s.Inherits (afterAll s turns) := by
  induction turns generalizing s with
  | nil => exact .refl
  | cons turn rest ih =>
    have hsound := after_sound hs (hroom.1.roomFor (turn.after s))
    exact (inherits hs hroom.1 turn).trans (ih hsound hroom.2)

theorem issues (hs : s.Sound) (hroom : s.HasRoom) (h : turn.issued? s = some x) :
    s.Issues x (turn.after s) := by
  cases turn with
  | operate op => exact op.issues hs hroom h
  | restore transport => cases h

/-- What is given out from now on comes after what was given out before. -/
theorem precedes_issued (hs : s.Sound) (hroom : Roomy s turns) (hx : s.Passed x) :
    ∀ y ∈ issued s turns, x.Precedes y := by
  induction turns generalizing s with
  | nil => simp [issued]
  | cons turn rest ih =>
    have hsound := after_sound hs (hroom.1.roomFor (turn.after s))
    intro y hy
    rcases List.mem_append.mp hy with hy | hy
    · exact hx.precedes (issues hs hroom.1 (Option.mem_toList.mp hy)).due
    · exact ih hsound hroom.2 (hx.of_inherits (inherits hs hroom.1 turn)) y hy

theorem issued_pairwise (hs : s.Sound) (hroom : Roomy s turns) :
    (issued s turns).Pairwise Key.Precedes := by
  induction turns generalizing s with
  | nil => exact .nil
  | cons turn rest ih =>
    have hsound := after_sound hs (hroom.1.roomFor (turn.after s))
    have hrest := ih hsound hroom.2
    rw [issued]
    cases hx : turn.issued? s with
    | none => exact hrest
    | some x => exact .cons (precedes_issued hsound hroom.2 (issues hs hroom.1 hx).passed) hrest

/-- A turn on the store `s` gives out the key `x`, which is new, and above those of the columns
that its table has. From then on what was created stands under it, until nothing does. -/
structure GivesOut (s : Store) (turn : Turn) (later : List Turn) (x : Key) : Prop where
  absent : s.denotation? x = none
  above : ∀ t c u, x = .column t c → s.tables[t]? = some u → ∀ a ∈ u.columns, a.key.index < c.index
  keyColumn : ∀ t c u d, x = .column t c → s.tables[t]? = some u → u.keyDef = some d →
    ∃ a ∈ u.columns, a.definition.name = d.column ∧ a.key.index < c.index
  present : ∃ f, (turn.after s).denotation? x = some f
  fades : ∀ first second rest, later = first ++ second ++ rest →
    let earlierOn := afterAll (turn.after s) first
    let laterOn := afterAll earlierOn second
    laterOn.denotation? x = none ∨ laterOn.denotation? x = earlierOn.denotation? x

theorem givesOut (hs : s.Sound) (hroom : Roomy s (turn :: later)) (hx : turn.issued? s = some x) :
    GivesOut s turn later x := by
  have hissues := issues hs hroom.1 hx
  have hsound := after_sound hs (hroom.1.roomFor (turn.after s))
  have habove : ∀ t c u, x = .column t c → s.tables[t]? = some u →
      ∀ a ∈ u.columns, a.key.index < c.index := by
    rintro t c u rfl hu a ha
    obtain ⟨u', hu', hdue⟩ := Option.map_eq_some_iff.mp hissues.due
    cases hu.symm.trans hu'
    have hlt : a.key.index.toNat < u.nextColumn.toNat := (hs.table t u hu).columns.key_lt a ha
    exact Nat.lt_of_lt_of_eq hlt hdue
  refine ⟨hissues.absent, habove, fun t c u d hxc hu hd => ?_, hissues.present, ?_⟩
  · obtain ⟨a, ha, hheld⟩ := (hs.table t u hu).keyColumn d hd
    exact ⟨a, ha, hheld.name, habove t c u hxc hu a ha⟩
  · rintro first second rest rfl
    obtain ⟨hfirst, -⟩ := roomy_append_iff.mp hroom.2
    obtain ⟨hfirst, hsecond⟩ := roomy_append_iff.mp hfirst
    have hsound' := afterAll_sound hsound hfirst.inRange
    have hinherits := afterAll_inherits hsound hfirst
    exact (hissues.passed.of_inherits hinherits).denotation?_eq (afterAll_inherits hsound' hsecond)

end Turn

/-- Along every history each counter gives out keys in ascending order, and a key that was given out
never comes to stand for anything else than what was created under it. -/
theorem keys_given_out_once {v : SchemaVersion} {turns : List Turn}
    (hroom : Turn.Roomy (.new v) turns) :
    (Turn.issued (.new v) turns).Pairwise Key.Precedes ∧
    ∀ earlier turn later x, turns = earlier ++ turn :: later →
      turn.issued? (Turn.afterAll (.new v) earlier) = some x →
      Turn.GivesOut (Turn.afterAll (.new v) earlier) turn later x := by
  have hs := Store.new_sound v
  refine ⟨Turn.issued_pairwise hs hroom, ?_⟩
  rintro earlier turn later x rfl hx
  obtain ⟨hearlier, hlater⟩ := Turn.roomy_append_iff.mp hroom
  exact Turn.givesOut (Turn.afterAll_sound hs hearlier.inRange) hlater hx

def Turn.firing : List Turn :=
  [.operate (.call (.addTable "people" (some ⟨"id", .int, false⟩))),
    .operate (.call (.createObject ⟨0⟩ (some (.int 7)))),
    .operate (.call (.addColumn ⟨0⟩ (.required "age" .int))),
    .operate (.call (.eraseObject ⟨0⟩ ⟨0⟩))]

def Turn.rehiring : List Turn :=
  [.operate (.dispatch (.new 1) (.table ⟨0⟩) [] (.createObject (some (.int 7))))]

theorem keys_given_out_once_rehiring :
    let turns := Turn.firing ++ .restore (.text false) :: Turn.rehiring
    Turn.Roomy (.new 1) turns ∧
    Turn.issued (.new 1) turns =
      [.table ⟨0⟩, .object ⟨0⟩ ⟨0⟩, .column ⟨0⟩ ⟨1⟩, .object ⟨0⟩ ⟨1⟩] ∧
    (Turn.issued (.new 1) turns).Pairwise Key.Precedes ∧
    (Turn.afterAll (.new 1) turns).denotation? (.object ⟨0⟩ ⟨0⟩) = none := by
  intro turns
  have hfiring : Turn.Roomy (.new 1) Turn.firing := by decide
  have hrestore : (Turn.restore (.text false)).after (Turn.afterAll (.new 1) Turn.firing) =
      Turn.afterAll (.new 1) Turn.firing :=
    Turn.after_restore (Turn.afterAll_sound (Store.new_sound 1) hfiring.inRange) (by decide +kernel)
      (.text false)
  have hroom : Turn.Roomy (.new 1) turns := by
    refine Turn.roomy_append_iff.mpr ⟨hfiring, by decide, ?_⟩
    rw [hrestore]
    exact ⟨by decide, trivial⟩
  have hissued : Turn.issued (.new 1) turns =
      [.table ⟨0⟩, .object ⟨0⟩ ⟨0⟩, .column ⟨0⟩ ⟨1⟩, .object ⟨0⟩ ⟨1⟩] := by
    rw [Turn.issued_append, Turn.issued, hrestore]
    rfl
  obtain ⟨hpairwise, hgiven⟩ := keys_given_out_once hroom
  have hperson := hgiven (Turn.firing.take 1) _ _ (.object ⟨0⟩ ⟨0⟩) rfl rfl
  have hfades := hperson.fades (Turn.firing.drop 2) (.restore (.text false) :: Turn.rehiring) [] rfl
  have herased : (Turn.afterAll (.new 1) Turn.firing).denotation? (.object ⟨0⟩ ⟨0⟩) = none := by
    rfl
  refine ⟨hroom, hissued, hpairwise, ?_⟩
  rw [Turn.afterAll_append]
  rcases hfades with hnone | hsame
  · exact hnone
  · exact hsame.trans herased

end ChangesetReplay
