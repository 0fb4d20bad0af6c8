import ChangesetReplay.Proofs.SelectionValidity
import ChangesetReplay.Proofs.KeyInheritance

/-! # Back-references

A changeset refers to the objects it created by number, in a list that only grows and that no
erasure is told to. That such a reference never comes to stand for another object rests on keys:
counters only go up, so that the key of an erased object, or of an erased table, is not given out
again. -/

namespace ChangesetReplay

/-- The objects of `u` are objects of `t`, or have keys that `t` had not given out yet. -/
structure Table.Grows (t u : Table) : Prop where
  next_le : t.nextObject ≤ u.nextObject
  object : ∀ j ∈ u.objects, j ∈ t.objects ∨ t.nextObject ≤ j.index

theorem Table.Inherits.grows {t u : Table} (h : t.Inherits u) : t.Grows u where
  next_le := h.nextObject_le
  object j hj := by
    obtain ⟨o, ho⟩ := FiniteMap.mem_iff_exists.mp hj
    rcases h.object j o ho with ⟨o', ho', -⟩ | hnew
    · exact .inl (FiniteMap.mem_iff_exists.mpr ⟨o', ho'⟩)
    · exact .inr hnew

namespace Store

structure Grows (s s' : Store) : Prop where
  next_le : s.nextTable ≤ s'.nextTable
  table : ∀ (k : TableKey) (u : Table), s'.tables[k]? = some u →
    s.nextTable ≤ k.index ∨ ∃ t, s.tables[k]? = some t ∧ t.Grows u

theorem Inherits.grows {s s' : Store} (h : s.Inherits s') : s.Grows s' where
  next_le := h.next_le
  table k u hu := by
    rcases h.table k u hu with ⟨t, ht, hinherits⟩ | hnew
    · exact .inr ⟨t, ht, hinherits.grows⟩
    · exact .inl hnew

variable {s s' : Store} {x : Handle}

structure Gone (s : Store) (x : Handle) : Prop where
  absent : ¬s.Holds x
  table : x.table.index < s.nextTable
  object : ∀ t, s.tables[x.table]? = some t → x.object.index < t.nextObject

/-- An object that is gone does not come back. -/
theorem Gone.of_grows (h : s.Gone x) (hgrows : s.Grows s') : s'.Gone x := by
  -- the table that is there now was there before, as its key is not a new one
  have hold : ∀ u, s'.tables[x.table]? = some u → ∃ t, s.tables[x.table]? = some t ∧ t.Grows u := by
    intro u hu
    rcases hgrows.table _ u hu with hnew | hold
    · exact absurd h.table (UInt32.not_lt.mpr hnew)
    · exact hold
  refine ⟨?_, UInt32.lt_of_lt_of_le h.table hgrows.next_le, fun u hu => ?_⟩
  · rintro ⟨u, hu, hmem⟩
    obtain ⟨t, ht, hgrows⟩ := hold u hu
    rcases hgrows.object _ hmem with hmem | hnew
    · exact h.absent ⟨t, ht, hmem⟩
    · exact absurd (h.object t ht) (UInt64.not_lt.mpr hnew)
  · obtain ⟨t, ht, hgrows⟩ := hold u hu
    exact UInt64.lt_of_lt_of_le (h.object t ht) hgrows.next_le

/-- When an object that was there is not there after a change, it is gone. -/
theorem Grows.gone (hgrows : s.Grows s') (hs : s.Sound) (hx : s.Holds x) (habsent : ¬s'.Holds x) :
    s'.Gone x := by
  obtain ⟨t, ht, hmem⟩ := hx
  obtain ⟨o, ho⟩ := FiniteMap.mem_iff_exists.mp hmem
  have htable := hs.key_lt _ t ht
  have hobject := ((hs.table _ t ht).object _ o ho).key_lt
  refine ⟨habsent, UInt32.lt_of_lt_of_le htable hgrows.next_le, fun u hu => ?_⟩
  rcases hgrows.table _ u hu with hnew | ⟨t', ht', hgrows⟩
  · exact absurd htable (UInt32.not_lt.mpr hnew)
  · cases ht.symm.trans ht'
    exact UInt64.lt_of_lt_of_le hobject hgrows.next_le

end Store

/-- An instruction with the selection that it is dispatched under. -/
structure Move where
  selection : Selection
  instruction : Instruction

namespace Move
variable (c : Changeset)

def after (p : Progress) (m : Move) : Progress :=
  (Replay.attempt c m.selection m.instruction p).2.2

def afterAll (p : Progress) (moves : List Move) : Progress := moves.foldl (after c) p

def created? (p : Progress) (m : Move) : Option Handle :=
  match (Replay.attempt c m.selection m.instruction p).1, m.selection.selectedTable with
  | .ok (.objectCreated _ object _), .ok table => some ⟨table, object⟩
  | _, _ => none

def Creates (p : Progress) (m : Move) : Prop :=
  m.instruction.kind = .createObject ∧
    ∃ e, (Replay.attempt c m.selection m.instruction p).1 = .ok e

def creations (p : Progress) : List Move → List Handle
  | [] => []
  | m :: rest => (m.created? c p).toList ++ creations (m.after c p) rest

def Roomy (p : Progress) : List Move → Prop
  | [] => True
  | m :: rest => p.store.HasRoom ∧ Roomy (m.after c p) rest

/-- None of the moves succeeds in erasing the object, by itself or along with its table. -/
def Spare (p : Progress) (x : Handle) : List Move → Prop
  | [] => True
  | m :: rest => ¬Step.Erased c m.selection m.instruction p x ∧ Spare (m.after c p) x rest

variable {c : Changeset} {p : Progress} {m : Move} {moves earlier later : List Move} {x : Handle}

theorem afterAll_append : afterAll c p (earlier ++ later) = afterAll c (afterAll c p earlier) later :=
  List.foldl_append

theorem creations_append : creations c p (earlier ++ later) =
    creations c p earlier ++ creations c (afterAll c p earlier) later := by
  induction earlier generalizing p with
  | nil => rfl
  | cons m rest ih =>
    rw [List.cons_append, creations, ih, creations, List.append_assoc]
    rfl

theorem roomy_append (h : Roomy c p (earlier ++ later)) :
    Roomy c p earlier ∧ Roomy c (afterAll c p earlier) later := by
  induction earlier generalizing p with
  | nil => exact ⟨trivial, h⟩
  | cons m rest ih =>
    obtain ⟨hearlier, hlater⟩ := ih h.2
    exact ⟨⟨h.1, hearlier⟩, hlater⟩

theorem after_store (p : Progress) (m : Move) :
    (m.after c p).store =
      Operation.after p.store (.dispatch c m.selection p.created m.instruction) := by
  cases hstep : Step.dispatch c m.selection m.instruction p with
  | error cause p' => simp only [after, Replay.attempt, Operation.after, hstep]
  | ok r p' => simp only [after, Replay.attempt, Operation.after, hstep]

/-- A move is a creation that succeeds, or it creates nothing. -/
theorem created?_cases (p : Progress) (m : Move) :
    (m.created? c p = none ∧ (m.after c p).created = p.created ∧ ¬m.Creates c p) ∨
    ∃ x key, m.created? c p = some x ∧ (m.after c p).created = p.created ++ [x] ∧
      Store.createObject x.table key p.store = .ok x.object (m.after c p).store ∧
      m.Creates c p := by
  obtain ⟨sel, i⟩ := m
  cases hstep : Step.dispatch c sel i p with
  | error cause p' =>
    cases Step.dispatch_atomic c sel i p cause p' hstep
    have hfailed : Replay.attempt c sel i p = (.error cause, sel, p) := by
      simp only [Replay.attempt, hstep]
    refine .inl ⟨by simp only [created?, hfailed], by simp only [after, hfailed], ?_⟩
    rintro ⟨-, e, he⟩
    cases hfailed ▸ he
  | ok r p' =>
    obtain ⟨sel', e⟩ := r
    have hdone : Replay.attempt c sel i p = (.ok e, sel', p') := by
      simp only [Replay.attempt, hstep]
    have hout := Step.dispatch_outcome hstep
    simp only [after, created?, Creates, hdone]
    clear hstep hdone
    cases hout with
    | @createObject key t key' o name s selected keyed label done =>
      exact .inr ⟨⟨t, o⟩, key', by simp only [selected], rfl, done, rfl, _, rfl⟩
    | _ => exact .inl ⟨rfl, rfl, fun hcreates => by cases hcreates.1⟩

theorem created?_isSome_iff : (m.created? c p).isSome ↔ m.Creates c p := by
  rcases created?_cases (c := c) p m with ⟨hnone, -, hnot⟩ | ⟨x, key, hsome, -, -, hcreates⟩
  · simp only [hnone, hnot, Option.isSome_none, Bool.false_eq_true]
  · simp only [hsome, hcreates, Option.isSome_some]

/-- The created objects are those that were created before, and then the one of the move. -/
theorem after_created (p : Progress) (m : Move) :
    (m.after c p).created = p.created ++ (m.created? c p).toList := by
  rcases created?_cases (c := c) p m with ⟨hnone, hsame, -⟩ | ⟨x, key, hsome, hpush, -⟩
  · rw [hnone, hsame, Option.toList_none, List.append_nil]
  · rw [hsome, hpush, Option.toList_some]

/-- An object that was just created is there. -/
theorem holds_of_created? (h : m.created? c p = some x) : (m.after c p).store.Holds x := by
  rcases created?_cases (c := c) p m with ⟨hnone, -⟩ | ⟨y, key, hsome, -, hcreate, -⟩
  · cases hnone.symm.trans h
  · cases hsome.symm.trans h
    obtain ⟨u, -, -, -, hkey, hstore⟩ := Store.createObject_ok_iff.mp hcreate
    rw [← hstore]
    refine ⟨_, Store.tables_putTable_self, ?_⟩
    exact FiniteMap.mem_iff_exists.mpr ⟨_, Table.objects_pushObject.mpr (.inl ⟨hkey, rfl⟩)⟩

theorem afterAll_created (p : Progress) (moves : List Move) :
    (afterAll c p moves).created = p.created ++ creations c p moves := by
  induction moves generalizing p with
  | nil => exact (List.append_nil _).symm
  | cons m rest ih =>
    show (afterAll c (m.after c p) rest).created = _
    rw [ih, after_created, creations, List.append_assoc]

theorem after_sound (hs : p.store.Sound) (hroom : p.store.HasRoom) :
    (m.after c p).store.Sound ∧ p.store.Grows (m.after c p).store := by
  rw [after_store]
  rcases Operation.change p.store (.dispatch c m.selection p.created m.instruction) with
    hsame | hchange
  · rw [hsame]
    exact ⟨hs, Store.Inherits.refl.grows⟩
  · exact ⟨hchange.sound hs hroom, (hchange.inherits hroom).grows⟩

theorem afterAll_sound (hs : p.store.Sound) (hroom : Roomy c p moves) :
    (afterAll c p moves).store.Sound := by
  induction moves generalizing p with
  | nil => exact hs
  | cons m rest ih => exact ih (after_sound hs hroom.1).1 hroom.2

theorem afterAll_gone (hs : p.store.Sound) (hroom : Roomy c p moves) (hx : p.store.Gone x) :
    (afterAll c p moves).store.Gone x := by
  induction moves generalizing p with
  | nil => exact hx
  | cons m rest ih =>
    obtain ⟨hs', hgrows⟩ := after_sound (m := m) hs hroom.1
    exact ih hs' hroom.2 (hx.of_grows hgrows)

/-- One move takes an object away exactly if it erases it. -/
theorem after_holds_iff (hx : p.store.Holds x) :
    (m.after c p).store.Holds x ↔ ¬Step.Erased c m.selection m.instruction p x := by
  obtain ⟨loss, hkeeps, htakes⟩ :=
    Operation.keeps p.store (.dispatch c m.selection p.created m.instruction)
  rw [after_store]
  constructor
  · exact fun hafter herased => hkeeps.gone x ((htakes x).mpr herased) hafter
  · exact fun hspared => hkeeps.holds hx fun hloss => hspared ((htakes x).mp hloss)

/-- An object is there after the moves exactly if none of them erased it. -/
theorem afterAll_holds_iff (hs : p.store.Sound) (hroom : Roomy c p moves) (hx : p.store.Holds x) :
    (afterAll c p moves).store.Holds x ↔ Spare c p x moves := by
  induction moves generalizing p with
  | nil => exact iff_of_true hx trivial
  | cons m rest ih =>
    obtain ⟨hs', hgrows⟩ := after_sound (m := m) hs hroom.1
    by_cases hafter : (m.after c p).store.Holds x
    · exact (ih hs' hroom.2 hafter).trans (and_iff_right ((after_holds_iff hx).mp hafter)).symm
    · have hgone := afterAll_gone hs' hroom.2 (hgrows.gone hs hx hafter)
      exact iff_of_false hgone.absent fun hspare => hafter ((after_holds_iff hx).mpr hspare.1)

end Move

namespace Changeset
variable {c : Changeset} {s : Store} {created : List Handle} {u : TableKey} {t : Table}
variable {field : String} {index : UInt32} {x : Handle}

/-- What the reference number `index`, to an object `x` that was created before, is resolved to in
the table `t` under the key `u`, as an object and as a link in a field, given whether the object
was spared since. -/
structure BackReference (c : Changeset) (s : Store) (created : List Handle) (u : TableKey)
    (t : Table) (field : String) (index : UInt32) (x : Handle) (spared : Prop) : Prop where
  object_iff : ∀ j, c.object s created u (.created index) = .ok j ↔
    (u = x.table ∧ spared) ∧ j = x.object
  link_iff : ∀ j, c.linkedObject s created field u (.created index) = .ok j ↔
    (u = x.table ∧ spared) ∧ j = x.object
  object_elsewhere : u ≠ x.table → c.object s created u (.created index) =
    .error (.objectTableMismatch t.name (s.tableNameOrEmpty x.table))
  link_elsewhere : u ≠ x.table → c.linkedObject s created field u (.created index) =
    .error (.linkTargetMismatch field t.name (s.tableNameOrEmpty x.table))
  object_erased : u = x.table → ¬spared → c.object s created u (.created index) =
    .error (.objectNotFound t.name s!"created#{index.toNat}")
  link_erased : u = x.table → ¬spared → c.linkedObject s created field u (.created index) =
    .error (.objectNotFound t.name s!"created#{index.toNat}")

theorem handle_of_length_le (h : created.length ≤ index.toNat) :
    handle created index = .error (.unknownObjectRef index created.length) := by
  rw [handle, List.getElem?_eq_none h]

theorem object_of_length_le (h : created.length ≤ index.toNat) :
    c.object s created u (.created index) = .error (.unknownObjectRef index created.length) := by
  simp only [object, handle_of_length_le h, Reading.error_bind]

theorem linkedObject_of_length_le (h : created.length ≤ index.toNat) :
    c.linkedObject s created field u (.created index) =
      .error (.unknownObjectRef index created.length) := by
  simp only [linkedObject, handle_of_length_le h, Reading.error_bind]

theorem handle_eq (hx : created[index.toNat]? = some x) : handle created index = .ok x := by
  rw [handle, hx]

theorem existing_of_not_holds {j : ObjectKey} {shown : String} (ht : s.tables[u]? = some t)
    (h : ¬s.Holds ⟨u, j⟩) : existing s u j shown = .error (.objectNotFound t.name shown) := by
  have habsent : s.containsObject u j = .ok false := by
    refine Store.containsObject_ok_iff.mpr ⟨t, ht, Bool.eq_false_iff.mpr fun hmem => h ⟨t, ht, ?_⟩⟩
    exact Std.ExtTreeMap.mem_iff_contains.mpr hmem
  simp only [existing, habsent, Store.tableName_of_tables ht, Reading.ok_bind,
    Bool.false_eq_true, if_false]

/-- In another table than its own, an object is not even looked for. -/
theorem object_elsewhere (hx : created[index.toNat]? = some x) (ht : s.tables[u]? = some t)
    (hne : u ≠ x.table) : c.object s created u (.created index) =
      .error (.objectTableMismatch t.name (s.tableNameOrEmpty x.table)) := by
  simp only [object, handle_eq hx, Reading.ok_bind, if_pos hne.symm, Store.tableName_of_tables ht]

theorem linkedObject_elsewhere (hx : created[index.toNat]? = some x)
    (ht : s.tables[u]? = some t) (hne : u ≠ x.table) :
    c.linkedObject s created field u (.created index) =
      .error (.linkTargetMismatch field t.name (s.tableNameOrEmpty x.table)) := by
  simp only [linkedObject, handle_eq hx, Reading.ok_bind, if_pos hne.symm,
    Store.tableName_of_tables ht, Reading.error_bind]

/-- In its own table it is looked for, as an object and as a link alike. -/
theorem object_created (hx : created[index.toNat]? = some x) :
    c.object s created x.table (.created index) =
      existing s x.table x.object s!"created#{index.toNat}" := by
  simp only [object, handle_eq hx, Reading.ok_bind, ne_eq, not_true_eq_false, if_false]

theorem linkedObject_created (hx : created[index.toNat]? = some x) :
    c.linkedObject s created field x.table (.created index) =
      existing s x.table x.object s!"created#{index.toNat}" := by
  simp only [linkedObject, handle_eq hx, Reading.ok_bind, ne_eq, not_true_eq_false, if_false,
    object_created hx]

theorem backReference (hx : created[index.toNat]? = some x) (ht : s.tables[u]? = some t) :
    BackReference c s created u t field index x (s.Holds x) := by
  by_cases hu : u = x.table
  · subst hu
    have hiff : ∀ j, existing s x.table x.object s!"created#{index.toNat}" = .ok j ↔
        (x.table = x.table ∧ s.Holds x) ∧ j = x.object := by
      intro j
      rw [existing_ok_iff, eq_comm (a := x.object), and_comm, and_iff_right rfl]
    exact
      { object_iff := fun j => object_created hx ▸ hiff j
        link_iff := fun j => linkedObject_created hx ▸ hiff j
        object_elsewhere := fun hne => absurd rfl hne
        link_elsewhere := fun hne => absurd rfl hne
        object_erased := fun _ h => object_created hx ▸ existing_of_not_holds ht h
        link_erased := fun _ h => linkedObject_created hx ▸ existing_of_not_holds ht h }
  · have hobject := object_elsewhere (c := c) hx ht hu
    have hlink : c.linkedObject s created field u (.created index) = _ :=
      linkedObject_elsewhere hx ht hu
    exact
      { object_iff := fun j => by simp [hobject, hu]
        link_iff := fun j => by simp [hlink, hu]
        object_elsewhere := fun _ => hobject
        link_elsewhere := fun _ => hlink
        object_erased := fun h => absurd h hu
        link_erased := fun h => absurd h hu }

end Changeset

/-- A reference by number stands for the object that was created under that number, in the table
where it was created and until it is erased, and never for any other. -/
theorem back_references_stable {v : SchemaVersion} {s : Store} {c : Changeset} {moves : List Move}
    {u : TableKey} {t : Table} (hs : Store.Reachable v s) (hroom : Move.Roomy c ⟨s, []⟩ moves)
    (ht : (Move.afterAll c ⟨s, []⟩ moves).store.tables[u]? = some t) (field : String)
    (index : UInt32) :
    let p := Move.afterAll c ⟨s, []⟩ moves
    let count := (Move.creations c ⟨s, []⟩ moves).length
    (count ≤ index.toNat →
      c.object p.store p.created u (.created index) = .error (.unknownObjectRef index count) ∧
      c.linkedObject p.store p.created field u (.created index) =
        .error (.unknownObjectRef index count)) ∧
    ∀ earlier m later x, moves = earlier ++ m :: later →
      m.created? c (Move.afterAll c ⟨s, []⟩ earlier) = some x →
      index.toNat = (Move.creations c ⟨s, []⟩ earlier).length →
      c.BackReference p.store p.created u t field index x
        (Move.Spare c (m.after c (Move.afterAll c ⟨s, []⟩ earlier)) x later) := by
  intro p count
  have hcreated : p.created = Move.creations c ⟨s, []⟩ moves := Move.afterAll_created _ moves
  refine ⟨fun hcount => ?_, ?_⟩
  · have hlength : p.created.length = count := congrArg List.length hcreated
    rw [← hlength] at hcount ⊢
    exact ⟨Changeset.object_of_length_le hcount, Changeset.linkedObject_of_length_le hcount⟩
  · rintro earlier m later x rfl hx hindex
    obtain ⟨hearlier, hm, hlater⟩ := Move.roomy_append hroom
    have hsound := Move.afterAll_sound hs.sound hearlier
    obtain ⟨hsound', -⟩ := Move.after_sound (c := c) (m := m) hsound hm
    have hholds := Move.afterAll_holds_iff hsound' hlater (Move.holds_of_created? hx)
    have hlookup : p.created[index.toNat]? = some x := by
      rw [hcreated, Move.creations_append, Move.creations, hx, hindex]
      simp
    have hp : p = Move.afterAll c (m.after c (Move.afterAll c ⟨s, []⟩ earlier)) later :=
      Move.afterAll_append
    rw [← propext hholds, ← hp]
    exact Changeset.backReference hlookup ht

/-- A person is created, once more in vain, erased, and created again under the same primary key. -/
def Move.rehiring : List Move :=
  [⟨.table ⟨1⟩, .createObject (some (.int 8))⟩, ⟨.table ⟨1⟩, .createObject (some (.int 8))⟩,
    ⟨.table ⟨1⟩, .eraseObject (.created 0)⟩, ⟨.table ⟨1⟩, .createObject (some (.int 8))⟩]

theorem back_references_stable_rehiring :
    let p := Move.afterAll (.new 1) ⟨Store.teamStore, []⟩ Move.rehiring
    Store.Reachable 1 Store.teamStore ∧
    Move.Roomy (.new 1) ⟨Store.teamStore, []⟩ Move.rehiring ∧
    (Changeset.new 1).object p.store p.created ⟨1⟩ (.created 0) =
      .error (.objectNotFound "people" "created#0") ∧
    (Changeset.new 1).object p.store p.created ⟨1⟩ (.created 1) = .ok ⟨2⟩ ∧
    (Changeset.new 1).linkedObject p.store p.created "best" ⟨1⟩ (.created 2) =
      .error (.unknownObjectRef 2 2) := by
  have hroom : Move.Roomy (.new 1) ⟨Store.teamStore, []⟩ Move.rehiring :=
    ⟨by decide, by decide, by decide, by decide, trivial⟩
  have herased : Step.Erased (.new 1) (.table ⟨1⟩) (.eraseObject (.created 0))
      (Move.afterAll (.new 1) ⟨Store.teamStore, []⟩ (Move.rehiring.take 2)) ⟨⟨1⟩, ⟨1⟩⟩ :=
    ⟨⟨rfl, rfl⟩, _, _, rfl⟩
  have hstable := back_references_stable (u := ⟨1⟩) Store.teamStore_reachable hroom rfl "best"
  have hfirst := (hstable 0).2 [] _ _ ⟨⟨1⟩, ⟨1⟩⟩ rfl rfl rfl
  have hlast := (hstable 1).2 (Move.rehiring.take 3) _ [] ⟨⟨1⟩, ⟨2⟩⟩ rfl rfl rfl
  exact ⟨Store.teamStore_reachable, hroom,
    hfirst.object_erased rfl fun hspare => hspare.2.1 herased,
    (hlast.object_iff ⟨2⟩).mpr ⟨⟨rfl, trivial⟩, rfl⟩, ((hstable 2).1 (by decide)).2⟩

end ChangesetReplay
