import ChangesetReplay.Proofs.CellIndependence

/-! # The order of writes

Writes of different cells can be exchanged: each comes to the same in either order, also if one of
them is refused. Additions to one cell can be exchanged too, though each reads what the other one
wrote: sums are taken modulo a power of two, so that it does not matter where they wrap around. -/

namespace ChangesetReplay

inductive ScalarWrite where
  | set (ref : ObjectRef) (field : NameId) (payload : Payload)
  | add (ref : ObjectRef) (field : NameId) (delta : Int64)

namespace ScalarWrite

def instruction : ScalarWrite → Instruction
  | set ref field payload => .set ref field payload
  | add ref field delta => .addInteger ref field delta

def ref : ScalarWrite → ObjectRef
  | set ref .. | add ref .. => ref

def field : ScalarWrite → NameId
  | set _ field _ | add _ field _ => field

/-- The write addresses the field `f`, which need not mean that it is accepted. -/
def Addresses (c : Changeset) (sel : Selection) (p : Progress) (w : ScalarWrite) (f : FieldRef) :
    Prop :=
  ∃ t column, Step.Addresses c sel p w.ref w.field f t column

variable {c : Changeset} {sel : Selection} {p : Progress} {w w' : ScalarWrite} {f : FieldRef}
variable {g g' : Progress → Progress}

/-- What a write makes of the progress: nothing if it is refused, and else it writes a cell. -/
inductive Acts (c : Changeset) (sel : Selection) (p : Progress) (w : ScalarWrite) :
    (Progress → Progress) → Prop where
  | refused : Acts c sel p w id
  | written {f : FieldRef} {v : Value} (addresses : w.Addresses c sel p f) :
      Acts c sel p w (·.putCell f (.scalar v))

theorem Addresses.unique (h : w.Addresses c sel p f) (hs : p.store.Coherent) {f' : FieldRef}
    (h' : w.Addresses c sel p f') : f = f' := by
  obtain ⟨t, column, h⟩ := h
  obtain ⟨t', column', h'⟩ := h'
  have hplace := (h.scalarField_eq hs).symm.trans (h'.scalarField_eq hs)
  cases f
  cases f'
  cases hplace
  cases h.key
  cases h'.key
  rfl

theorem exists_acts (hs : p.store.Coherent) (c : Changeset) (sel : Selection) (w : ScalarWrite) :
    ∃ o g, Replay.attempt c sel w.instruction p = (o, sel, g p) ∧ w.Acts c sel p g := by
  cases hstep : Step.dispatch c sel w.instruction p with
  | error cause q =>
    cases Step.dispatch_atomic c sel w.instruction p cause q hstep
    exact ⟨.error cause, id, by simp only [Replay.attempt, hstep, id], .refused⟩
  | ok r q =>
    obtain ⟨sel', e⟩ := r
    have houtcome := Step.dispatch_outcome hstep
    cases w with
    | set ref field payload =>
      cases houtcome with
      | set place linked resolved label done =>
        obtain ⟨t, haddresses⟩ := (Step.scalarField_ok_iff hs).mp place
        obtain ⟨_, _, _, _, -, -, -, -, rfl⟩ := Store.setScalar_ok_iff.mp done
        exact ⟨_, _, by simp only [Replay.attempt, hstep]; rfl, .written ⟨t, _, haddresses⟩⟩
    | add ref field delta =>
      cases houtcome with
      | addInteger place type label done =>
        obtain ⟨t, haddresses⟩ := (Step.scalarField_ok_iff hs).mp place
        obtain ⟨_, _, _, _, -, -, -, -, rfl⟩ := Store.addInt_ok_iff.mp done
        exact ⟨_, _, by simp only [Replay.attempt, hstep]; rfl, .written ⟨t, _, haddresses⟩⟩

theorem dispatch_ignores (hs : p.store.Coherent) {cell : Cell}
    (h : ∀ g, w.Addresses c sel p g → g ≠ f) :
    ActionLaws.Ignores (·.putCell f cell) p (Step.dispatch c sel w.instruction) := by
  cases w with
  | set ref field payload =>
    exact Step.set_ignores hs fun g t column haddresses => h g ⟨t, column, haddresses⟩
  | add ref field delta =>
    exact Step.addInteger_ignores hs fun g t column haddresses => h g ⟨t, column, haddresses⟩

/-- A write makes no difference to one that addresses another cell. -/
theorem Acts.ignored (h : w.Acts c sel p g) (hs : p.store.Coherent)
    (hother : ∀ f, w.Addresses c sel p f → ¬w'.Addresses c sel p f) :
    ActionLaws.Ignores g p (Step.dispatch c sel w'.instruction) := by
  cases h with
  | refused =>
    simp only [ActionLaws.Ignores, id]
    cases Step.dispatch c sel w'.instruction p <;> rfl
  | @written f v addresses =>
    refine dispatch_ignores hs fun f' h' heq => ?_
    exact hother f addresses (heq ▸ h')

theorem Acts.comm (h : w.Acts c sel p g) (h' : w'.Acts c sel p g')
    (hother : ∀ f, w.Addresses c sel p f → ¬w'.Addresses c sel p f) : g' (g p) = g (g' p) := by
  cases h with
  | refused => rfl
  | @written f v addresses =>
    cases h' with
    | refused => rfl
    | @written f' v' addresses' =>
      have hne : f ≠ f' := fun heq => hother f addresses (heq ▸ addresses')
      simp only [Progress.putCell, Store.putCell_comm hne]

end ScalarWrite

namespace Replay
variable {c : Changeset} {sel sel' : Selection} {p q : Progress} {o : Except Cause Effect}

def outcomes (c : Changeset) (sel : Selection) (p : Progress) :
    List Instruction → List (Except Cause Effect)
  | [] => []
  | i :: rest => (attempt c sel i p).1 ::
      outcomes c (attempt c sel i p).2.1 (attempt c sel i p).2.2 rest

theorem follow_cons_of_attempt {i : Instruction} {rest : List Instruction}
    (h : attempt c sel i p = (o, sel', q)) : follow c sel p (i :: rest) = follow c sel' q rest := by
  simp only [follow, h]

theorem outcomes_cons_of_attempt {i : Instruction} {rest : List Instruction}
    (h : attempt c sel i p = (o, sel', q)) :
    outcomes c sel p (i :: rest) = o :: outcomes c sel' q rest := by
  simp only [outcomes, h]

theorem forall_outcomes_cons {P : Except Cause Effect → Prop} {i : Instruction}
    {rest : List Instruction} (h : attempt c sel i p = (o, sel', q)) (ho : P o)
    (hrest : ∀ o ∈ outcomes c sel' q rest, P o) : ∀ o ∈ outcomes c sel p (i :: rest), P o := by
  rw [outcomes_cons_of_attempt h]
  exact List.forall_mem_cons.mpr ⟨ho, hrest⟩

theorem attempt_of_ignores {g : Progress → Progress} {i : Instruction}
    (h : ActionLaws.Ignores g p (Step.dispatch c sel i))
    (hi : attempt c sel i p = (o, sel', q)) : attempt c sel i (g p) = (o, sel', g q) := by
  have h : Step.dispatch c sel i (g p) = ActionLaws.changed g (Step.dispatch c sel i p) := h
  simp only [attempt] at hi ⊢
  rw [h]
  cases hstep : Step.dispatch c sel i p with
  | error cause r =>
    rw [hstep] at hi
    cases hi
    rfl
  | ok r s =>
    rw [hstep] at hi
    cases hi
    rfl

/-- Writes of different cells can be exchanged. -/
theorem writes_exchanged (hs : p.store.Coherent) {w w' : ScalarWrite}
    (hother : ∀ f, w.Addresses c sel p f → ¬w'.Addresses c sel p f) :
    ∃ o o', outcomes c sel p [w.instruction, w'.instruction] = [o, o'] ∧
      outcomes c sel p [w'.instruction, w.instruction] = [o', o] ∧
      follow c sel p [w.instruction, w'.instruction] =
        follow c sel p [w'.instruction, w.instruction] := by
  obtain ⟨o, g, hw, hacts⟩ := w.exists_acts hs c sel
  obtain ⟨o', g', hw', hacts'⟩ := w'.exists_acts hs c sel
  have hthen := attempt_of_ignores (hacts.ignored hs hother) hw'
  have hthen' := attempt_of_ignores (hacts'.ignored hs fun f h h' => hother f h' h) hw
  refine ⟨o, o', ?_, ?_, ?_⟩
  · simp only [outcomes, hw, hthen]
  · simp only [outcomes, hw', hthen']
  · simp only [follow, hw, hthen, hw', hthen', hacts.comm hacts' hother]

end Replay

structure Addition where
  ref : ObjectRef
  field : NameId
  delta : Int64

namespace Addition

def write (a : Addition) : ScalarWrite := .add a.ref a.field a.delta

def instructions (l : List Addition) : List Instruction := l.map fun a => a.write.instruction

def total : List Addition → Int
  | [] => 0
  | a :: l => a.delta.toInt + total l

theorem total_perm {l l' : List Addition} (h : l.Perm l') : total l = total l' := by
  induction h with
  | nil => rfl
  | cons a _ ih => simp only [total, ih]
  | swap a b l =>
    simp only [total]
    omega
  | trans _ _ ih ih' => exact ih.trans ih'

/-- Where an addition wraps around makes no difference to a sum. -/
theorem ofInt_add_total (n : Int64) (a : Addition) (l : List Addition) :
    Int64.ofInt ((n + a.delta).toInt + total l) = Int64.ofInt (n.toInt + total (a :: l)) := by
  apply Int64.toInt_inj.mp
  rw [Int64.toInt_ofInt, Int64.toInt_ofInt, Int64.toInt_add, total, ← Int.add_assoc]
  exact Int.bmod_add_bmod

end Addition

def Store.Sums (s : Store) (f : FieldRef) (n : Int64) : Prop :=
  ∃ t d o, s.CellAt f t d o (.scalar (.int n)) ∧ d.type = .int ∧ d.isList = false ∧
    t.isKeyColumn d = false

namespace Store.Sums
variable {s : Store} {f : FieldRef} {m n : Int64}

theorem scalar_eq (h : s.Sums f n) : s.scalar f = .ok (.int n) := by
  obtain ⟨t, d, o, hat, -⟩ := h
  exact scalar_ok_iff.mpr ⟨t, d, o, hat⟩

theorem written (h : s.Sums f n) (v : Value) : s.Written f (.scalar v) (s.putCell f (.scalar v)) := by
  obtain ⟨t, d, o, hat, -⟩ := h
  exact hat.written_iff.mpr rfl

theorem putCell (h : s.Sums f n) (m : Int64) : (s.putCell f (.scalar (.int m))).Sums f m := by
  obtain ⟨t, d, o, hat, htype, hsingle, hnoKey⟩ := h
  exact ⟨_, d, _, hat.putCell _, htype, hsingle, hnoKey⟩

theorem putCell_self (h : s.Sums f n) : s.putCell f (.scalar (.int n)) = s := by
  obtain ⟨t, d, o, hat, -⟩ := h
  exact putCell_overwritten.symm.trans (hat.putCell_putCell (.scalar .null))

theorem coherent_putCell (h : s.Sums f n) (hs : s.Coherent) (cell : Cell) :
    (s.putCell f cell).Coherent := by
  obtain ⟨t, d, o, hat, -, -, hnoKey⟩ := h
  exact hs.putCell hat (.inl hnoKey)

end Store.Sums

/-- What an addressing reads is not in the cells. -/
theorem ScalarWrite.Addresses.putCell {c : Changeset} {sel : Selection} {p : Progress}
    {w : ScalarWrite} {f g : FieldRef} {cell : Cell} (h : w.Addresses c sel p f) :
    w.Addresses c sel (p.putCell g cell) f := by
  obtain ⟨t, column, h⟩ := h
  have htable : (p.store.putCell g cell).tables[f.table]? =
      some (if g.table = f.table then t.setCell g.object g.column cell else t) := by
    rw [Store.tables_putCell, h.table, Option.map_some]
  have hcolumns : (if g.table = f.table then t.setCell g.object g.column cell else t).columns =
      t.columns := by split <;> rfl
  exact ⟨_, column, h.selected, htable, h.name, hcolumns ▸ h.member, h.key, h.single,
    Changeset.object_putCell.trans h.object⟩

namespace Replay
variable {c : Changeset} {sel : Selection} {p : Progress} {a : Addition} {l l' : List Addition}
variable {f : FieldRef} {n : Int64}

/-- An addition is accepted if its field holds an integer. -/
theorem attempt_addition (hs : p.store.Coherent) (ha : a.write.Addresses c sel p f)
    (hn : p.store.Sums f n) : ∃ e, attempt c sel a.write.instruction p =
      (.ok e, sel, p.putCell f (.scalar (.int (n + a.delta)))) := by
  obtain ⟨t, column, ha⟩ := ha
  obtain ⟨u, d, o, hat, htype, hsingle, hnoKey⟩ := hn
  obtain ⟨rfl, rfl⟩ := ha.eq_of_cellAt hs hat
  have hplace := ha.scalarField_eq hs
  have hadd : Store.addInt ⟨f.table, f.object, column.key⟩ a.delta p.store =
      .ok (n + a.delta) (p.store.putCell f (.scalar (.int (n + a.delta)))) :=
    ha.key ▸ Store.addInt_ok_iff.mpr ⟨t, _, o, n, hat, hsingle, hnoKey, rfl, rfl⟩
  have hstep : Step.dispatch c sel a.write.instruction p =
      .ok (sel, .integerAdded t.name f.object column.definition.name a.delta (n + a.delta))
        (p.putCell f (.scalar (.int (n + a.delta)))) := by
    simp only [Addition.write, ScalarWrite.instruction, Step.dispatch, Step.addInteger, ne_eq,
      ite_not, ActionLaws.throw_bind, ActionLaws.guard_not_ok_iff, Step.tableName, bind_pure_comp,
      Step.look_bind_ok_iff, Step.onStore_bind_ok_iff, ActionLaws.map_ok_iff, Step.look_ok_iff,
      Prod.mk.injEq, Prod.exists]
    exact ⟨_, _, _, hplace, htype, _, _, hadd, t.name, ⟨ha.tableName_putCell, rfl⟩, trivial, rfl⟩
  exact ⟨.integerAdded t.name f.object column.definition.name a.delta (n + a.delta),
    by simp only [attempt, hstep]⟩

/-- No other addition is. -/
theorem sums_of_attempt (hs : p.store.Coherent) (ha : a.write.Addresses c sel p f)
    (hok : (attempt c sel a.write.instruction p).1.isOk = true) : ∃ n, p.store.Sums f n := by
  obtain ⟨t, column, ha⟩ := ha
  cases hstep : Step.dispatch c sel a.write.instruction p with
  | error cause q =>
    simp only [attempt, hstep] at hok
    cases hok
  | ok r q =>
    obtain ⟨sel', e⟩ := r
    cases Step.dispatch_outcome hstep with
    | addInteger place type label done =>
      cases (ha.scalarField_eq hs).symm.trans place
      obtain ⟨u, d, o, n, hat, hsingle, hnoKey, -, -⟩ := Store.addInt_ok_iff.mp done
      rw [ha.key] at hat
      obtain ⟨rfl, rfl⟩ := ha.eq_of_cellAt hs hat
      exact ⟨n, t, _, o, hat, type, hsingle, hnoKey⟩

theorem attempt_refused (hs : p.store.Coherent) (ha : a.write.Addresses c sel p f)
    (hn : ∀ n, ¬p.store.Sums f n) :
    ∃ cause, attempt c sel a.write.instruction p = (.error cause, sel, p) := by
  cases hstep : Step.dispatch c sel a.write.instruction p with
  | error cause q =>
    cases Step.dispatch_atomic c sel _ p cause q hstep
    exact ⟨cause, by simp only [attempt, hstep]⟩
  | ok r q =>
    have hok : (attempt c sel a.write.instruction p).1.isOk = true := by
      simp only [attempt, hstep, Except.isOk, Except.toBool]
    obtain ⟨n, h⟩ := sums_of_attempt hs ha hok
    exact absurd h (hn n)

/-- Additions to a field that holds an integer are all accepted, and add up. -/
theorem follow_additions (hs : p.store.Coherent) (hl : ∀ a ∈ l, a.write.Addresses c sel p f)
    (hn : p.store.Sums f n) :
    follow c sel p (Addition.instructions l) =
        (sel, p.putCell f (.scalar (.int (.ofInt (n.toInt + Addition.total l))))) ∧
      ∀ o ∈ outcomes c sel p (Addition.instructions l), o.isOk = true := by
  induction l generalizing p n with
  | nil =>
    refine ⟨?_, by simp [Addition.instructions, outcomes]⟩
    have hsame : p.putCell f (.scalar (.int n)) = p := by
      rw [Progress.putCell, hn.putCell_self]
    simp [Addition.instructions, follow, Addition.total, hsame]
  | cons a rest ih =>
    obtain ⟨e, he⟩ := attempt_addition hs (hl a (List.mem_cons_self ..)) hn
    obtain ⟨hfollow, hrest⟩ := ih (hn.coherent_putCell hs _)
      (fun b hb => (hl b (List.mem_cons_of_mem a hb)).putCell) (hn.putCell (n + a.delta))
    -- The rest starts from `n + a.delta`; its last write is the only one that is left.
    have hput : (p.putCell f (.scalar (.int (n + a.delta)))).putCell f
        (.scalar (.int (.ofInt ((n + a.delta).toInt + Addition.total rest)))) =
          p.putCell f (.scalar (.int (.ofInt (n.toInt + Addition.total (a :: rest))))) := by
      simp only [Progress.putCell, Store.putCell_overwritten, Addition.ofInt_add_total]
    exact ⟨(follow_cons_of_attempt he).trans (hfollow.trans (congrArg (Prod.mk sel) hput)),
      forall_outcomes_cons he rfl hrest⟩

/-- Else they are all refused. -/
theorem follow_refused (hs : p.store.Coherent) (hl : ∀ a ∈ l, a.write.Addresses c sel p f)
    (hn : ∀ n, ¬p.store.Sums f n) : follow c sel p (Addition.instructions l) = (sel, p) ∧
      ∀ o ∈ outcomes c sel p (Addition.instructions l), o.isOk = false := by
  induction l with
  | nil => exact ⟨rfl, fun o ho => absurd ho List.not_mem_nil⟩
  | cons a rest ih =>
    have ha := hl a (List.mem_cons_self ..)
    obtain ⟨hfollow, hrest⟩ := ih fun b hb => hl b (List.mem_cons_of_mem a hb)
    obtain ⟨cause, he⟩ := attempt_refused hs ha hn
    exact ⟨(follow_cons_of_attempt he).trans hfollow, forall_outcomes_cons he rfl hrest⟩

/-- Additions to one cell add up, in whatever order: one of them is accepted where all are, and then
the cell holds what was there before with the deltas added, modulo the range of the integers. -/
structure AddsUp (c : Changeset) (sel : Selection) (p : Progress) (f : FieldRef)
    (l : List Addition) : Prop where
  together : ∀ a ∈ l, ∀ l', l.Perm l' → ∀ o ∈ outcomes c sel p (Addition.instructions l'),
    o.isOk = (attempt c sel a.write.instruction p).1.isOk
  order : ∀ l', l.Perm l' →
    follow c sel p (Addition.instructions l') = follow c sel p (Addition.instructions l)
  sum : ∀ a ∈ l, (attempt c sel a.write.instruction p).1.isOk = true →
    ∃ n m s', p.store.scalar f = .ok (.int n) ∧
      m.toInt = (n.toInt + Addition.total l).bmod Int64.size ∧
      follow c sel p (Addition.instructions l) = (sel, ⟨s', p.created⟩) ∧
      p.store.Written f (.scalar (.int m)) s'

theorem addsUp (hs : p.store.Coherent) (hl : ∀ a ∈ l, a.write.Addresses c sel p f) :
    AddsUp c sel p f l := by
  have hperm : ∀ l', l.Perm l' → ∀ a ∈ l', a.write.Addresses c sel p f :=
    fun l' h a ha => hl a (h.mem_iff.mpr ha)
  by_cases hn : ∃ n, p.store.Sums f n
  · obtain ⟨n, hn⟩ := hn
    obtain ⟨hfollow, -⟩ := follow_additions hs hl hn
    constructor
    case together =>
      intro a ha l' h o ho
      obtain ⟨e, he⟩ := attempt_addition hs (hl a ha) hn
      rw [he]
      exact (follow_additions hs (hperm l' h) hn).2 o ho
    case order =>
      intro l' h
      rw [(follow_additions hs (hperm l' h) hn).1, hfollow, Addition.total_perm h]
    case sum =>
      intro a ha hok
      exact ⟨n, .ofInt (n.toInt + Addition.total l), _, hn.scalar_eq, Int64.toInt_ofInt,
        hfollow, hn.written _⟩
  · have hn : ∀ n, ¬p.store.Sums f n := fun n h => hn ⟨n, h⟩
    constructor
    case together =>
      intro a ha l' h o ho
      obtain ⟨cause, he⟩ := attempt_refused hs (hl a ha) hn
      rw [he]
      exact (follow_refused hs (hperm l' h) hn).2 o ho
    case order =>
      intro l' h
      rw [(follow_refused hs (hperm l' h) hn).1, (follow_refused hs hl hn).1]
    case sum =>
      intro a ha hok
      obtain ⟨n, h⟩ := sums_of_attempt hs (hl a ha) hok
      exact absurd h (hn n)

/-- In every store that comes of an empty one, writes of different cells can be exchanged, and
additions to one cell add up. -/
theorem scalar_writes_commute (v : SchemaVersion) (turns : List Turn) (created : List Handle)
    (c : Changeset) (sel : Selection) :
    let p : Progress := ⟨Turn.afterAll (.new v) turns, created⟩
    (∀ w w' : ScalarWrite, (∀ f, w.Addresses c sel p f → ¬w'.Addresses c sel p f) →
      ∃ o o', outcomes c sel p [w.instruction, w'.instruction] = [o, o'] ∧
        outcomes c sel p [w'.instruction, w.instruction] = [o', o] ∧
        follow c sel p [w.instruction, w'.instruction] =
          follow c sel p [w'.instruction, w.instruction]) ∧
    ∀ (f : FieldRef) (l : List Addition), (∀ a ∈ l, a.write.Addresses c sel p f) →
      AddsUp c sel p f l := by
  intro p
  have hs : p.store.Coherent := Turn.afterAll_coherent (.new v)
  exact ⟨fun _ _ hother => writes_exchanged hs hother, fun _ _ hl => addsUp hs hl⟩

def counted : List Turn :=
  Store.teamOperations.map .operate ++
    [.operate (.call (.addColumn ⟨1⟩ (.required "count" .int)))]

def countedNames : Changeset := { Changeset.new 1 with strings := ["people", "team", "count"] }

/-- The second addition wraps around, or the first one does, in the other order. -/
def counts : List Addition :=
  [⟨.primaryKey (.int 7), ⟨2⟩, .maxValue⟩, ⟨.key ⟨0⟩, ⟨2⟩, 1⟩]

theorem scalar_writes_commute_counted :
    let p : Progress := ⟨Turn.afterAll (.new 1) counted, []⟩
    let leave : ScalarWrite := .set (.key ⟨0⟩) ⟨1⟩ .null
    let count : ScalarWrite := .add (.primaryKey (.int 7)) ⟨2⟩ 1
    (∀ f, leave.Addresses countedNames (.table ⟨1⟩) p f →
        ¬count.Addresses countedNames (.table ⟨1⟩) p f) ∧
      follow countedNames (.table ⟨1⟩) p [leave.instruction, count.instruction] =
        follow countedNames (.table ⟨1⟩) p [count.instruction, leave.instruction] ∧
      (∀ a ∈ counts, a.write.Addresses countedNames (.table ⟨1⟩) p ⟨⟨1⟩, ⟨0⟩, ⟨3⟩⟩) ∧
      AddsUp countedNames (.table ⟨1⟩) p ⟨⟨1⟩, ⟨0⟩, ⟨3⟩⟩ counts ∧
      (follow countedNames (.table ⟨1⟩) p (Addition.instructions counts)).2.store.scalar
        ⟨⟨1⟩, ⟨0⟩, ⟨3⟩⟩ = .ok (.int .minValue) := by
  intro p leave count
  have hs : p.store.Coherent := Turn.afterAll_coherent (.new 1)
  have hleave : leave.Addresses countedNames (.table ⟨1⟩) p ⟨⟨1⟩, ⟨0⟩, ⟨1⟩⟩ :=
    ⟨_, ⟨⟨1⟩, .linkTo "team" "teams"⟩, rfl, rfl, rfl, by decide, rfl, rfl, rfl⟩
  have hcount : ∀ ref delta, countedNames.object p.store p.created ⟨1⟩ ref = .ok ⟨0⟩ →
      (ScalarWrite.add ref ⟨2⟩ delta).Addresses countedNames (.table ⟨1⟩) p ⟨⟨1⟩, ⟨0⟩, ⟨3⟩⟩ :=
    fun _ _ hobject =>
      ⟨_, ⟨⟨3⟩, .required "count" .int⟩, rfl, rfl, rfl, by decide, rfl, rfl, hobject⟩
  have hother : ∀ f, leave.Addresses countedNames (.table ⟨1⟩) p f →
      ¬count.Addresses countedNames (.table ⟨1⟩) p f := by
    intro f h h'
    cases (hleave.unique hs h).trans ((hcount _ _ rfl).unique hs h').symm
  have hcounts : ∀ a ∈ counts, a.write.Addresses countedNames (.table ⟨1⟩) p ⟨⟨1⟩, ⟨0⟩, ⟨3⟩⟩ := by
    simp only [counts, List.forall_mem_cons, List.not_mem_nil, false_implies, implies_true,
      and_true]
    exact ⟨hcount _ _ rfl, hcount _ _ rfl⟩
  obtain ⟨hexchange, hadd⟩ :=
    scalar_writes_commute 1 counted [] countedNames (.table ⟨1⟩)
  obtain ⟨_, _, -, -, hfollow⟩ := hexchange leave count hother
  exact ⟨hother, hfollow, hcounts, hadd _ _ hcounts, rfl⟩

end Replay
end ChangesetReplay
