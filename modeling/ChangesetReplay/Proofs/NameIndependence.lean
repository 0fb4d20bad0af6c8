import Mathlib.Data.List.Forall2
import ChangesetReplay.Proofs.RunPrefix

/-! # Names count for what they resolve to

A changeset refers to names by entries of its intern table and to texts by ranges of its buffer. Two
changesets whose instructions differ only in these references, and whose references stand for the
same strings, or for none on both sides, are alike. Alike changesets do the same to every store: the
number of an entry and the place of a range show up nowhere but in the cause of a reference that
stands for nothing. -/

namespace ChangesetReplay

namespace Changeset

/-- Two entries stand for the same name, or both for none. -/
def SameName (c c' : Changeset) (a b : NameId) : Prop := (c.name a).toOption = (c'.name b).toOption

def SameString (c c' : Changeset) (a b : StringRange) : Prop :=
  (c.string a).toOption = (c'.string b).toOption

end Changeset

section Alike
variable (c c' : Changeset)

structure KeySpec.Alike (a b : KeySpec) : Prop where
  column : c.SameName c' a.column b.column
  type : a.type = b.type
  nullable : a.nullable = b.nullable

inductive KeyPayload.Alike : KeyPayload → KeyPayload → Prop where
  | null : Alike .null .null
  | int (n : Int64) : Alike (.int n) (.int n)
  | string {a b : StringRange} (same : c.SameString c' a b) : Alike (.string a) (.string b)

inductive ObjectRef.Alike : ObjectRef → ObjectRef → Prop where
  | created (index : UInt32) : Alike (.created index) (.created index)
  | primaryKey {a b : KeyPayload} (key : KeyPayload.Alike c c' a b) :
      Alike (.primaryKey a) (.primaryKey b)
  | key (object : ObjectKey) : Alike (.key object) (.key object)

inductive Payload.Alike : Payload → Payload → Prop where
  | null : Alike .null .null
  | int (n : Int64) : Alike (.int n) (.int n)
  | bool (b : Bool) : Alike (.bool b) (.bool b)
  | float (x : Binary64) : Alike (.float x) (.float x)
  | string {a b : StringRange} (same : c.SameString c' a b) : Alike (.string a) (.string b)
  | binary (bytes : List UInt8) : Alike (.binary bytes) (.binary bytes)
  | timestamp (t : Timestamp) : Alike (.timestamp t) (.timestamp t)
  | link {r r' : ObjectRef} (object : ObjectRef.Alike c c' r r') : Alike (.link r) (.link r')

/-- Two instructions are equal but for the entries and ranges they refer to, and these stand for the
same strings. -/
inductive Instruction.Alike : Instruction → Instruction → Prop where
  | addTable {a b : NameId} {k k' : Option KeySpec} (table : c.SameName c' a b)
      (key : Option.Rel (KeySpec.Alike c c') k k') : Alike (.addTable a k) (.addTable b k')
  | eraseTable {a b : NameId} (table : c.SameName c' a b) : Alike (.eraseTable a) (.eraseTable b)
  | addColumn {a b x y : NameId} {t t' : Option NameId} (type : ValueType) (nullable isList : Bool)
      (table : c.SameName c' a b) (column : c.SameName c' x y)
      (target : Option.Rel (c.SameName c') t t') :
      Alike (.addColumn a x type nullable isList t) (.addColumn b y type nullable isList t')
  | eraseColumn {a b x y : NameId} (table : c.SameName c' a b) (column : c.SameName c' x y) :
      Alike (.eraseColumn a x) (.eraseColumn b y)
  | selectTable {a b : NameId} (table : c.SameName c' a b) : Alike (.selectTable a) (.selectTable b)
  | selectField {r r' : ObjectRef} {x y : NameId} (object : ObjectRef.Alike c c' r r')
      (field : c.SameName c' x y) : Alike (.selectField r x) (.selectField r' y)
  | selectLinkList {r r' : ObjectRef} {x y : NameId} (object : ObjectRef.Alike c c' r r')
      (field : c.SameName c' x y) : Alike (.selectLinkList r x) (.selectLinkList r' y)
  | createObject {k k' : Option KeyPayload} (key : Option.Rel (KeyPayload.Alike c c') k k') :
      Alike (.createObject k) (.createObject k')
  | eraseObject {r r' : ObjectRef} (object : ObjectRef.Alike c c' r r') :
      Alike (.eraseObject r) (.eraseObject r')
  | set {r r' : ObjectRef} {x y : NameId} {v v' : Payload} (object : ObjectRef.Alike c c' r r')
      (field : c.SameName c' x y) (value : Payload.Alike c c' v v') :
      Alike (.set r x v) (.set r' y v')
  | addInteger {r r' : ObjectRef} {x y : NameId} (delta : Int64)
      (object : ObjectRef.Alike c c' r r') (field : c.SameName c' x y) :
      Alike (.addInteger r x delta) (.addInteger r' y delta)
  | listInsert {v v' : Payload} (i : UInt32) (value : Payload.Alike c c' v v') :
      Alike (.listInsert i v) (.listInsert i v')
  | listSet {v v' : Payload} (i : UInt32) (value : Payload.Alike c c' v v') :
      Alike (.listSet i v) (.listSet i v')
  | listErase (i : UInt32) : Alike (.listErase i) (.listErase i)
  | listMove (source target : UInt32) : Alike (.listMove source target) (.listMove source target)
  | listSwap (i j : UInt32) : Alike (.listSwap i j) (.listSwap i j)
  | listClear : Alike .listClear .listClear

theorem Instruction.Alike.kind_eq {i i' : Instruction} (h : i.Alike c c' i') :
    i.kind = i'.kind := by
  cases h <;> rfl

structure Changeset.Alike : Prop where
  schemaVersion : c.schemaVersion = c'.schemaVersion
  instructions : List.Forall₂ (Instruction.Alike c c') c.instructions c'.instructions

end Alike

/-- Two causes are the same up to the entry or range quoted. -/
inductive Cause.Alike : Cause → Cause → Prop where
  | refl (e : Cause) : Alike e e
  | unknownString (a b : UInt32) : Alike (.unknownString a) (.unknownString b)
  | badStringRange (offset size offset' size' : UInt32) :
      Alike (.badStringRange offset size) (.badStringRange offset' size')

theorem Cause.Alike.kind_eq {e e' : Cause} (h : e.Alike e') : e.kind = e'.kind := by
  cases h <;> rfl

structure Failure.Alike (f f' : Failure) : Prop where
  index : f.index = f'.index
  kind : f.kind = f'.kind
  cause : f.cause.Alike f'.cause

inductive ApplyError.Alike : ApplyError → ApplyError → Prop where
  | refl (e : ApplyError) : Alike e e
  | instruction {f f' : Failure} (failure : f.Alike f') : Alike (.instruction f) (.instruction f')

theorem ApplyError.Alike.kind_eq {e e' : ApplyError} (h : e.Alike e') : e.kind = e'.kind := by
  cases h with
  | refl => rfl
  | instruction h => exact h.cause.kind_eq

inductive Reading.Agree {α : Type} : Except Cause α → Except Cause α → Prop where
  | ok (a : α) : Agree (.ok a) (.ok a)
  | error {e e' : Cause} (h : e.Alike e') : Agree (.error e) (.error e')

namespace Reading.Agree
variable {α β : Type} {x y : Except Cause α}

theorem refl : (x : Except Cause α) → Agree x x
  | .ok a => .ok a
  | .error e => .error (.refl e)

theorem bind {f g : α → Except Cause β} (hx : Agree x y) (hf : ∀ a, Agree (f a) (g a)) :
    Agree (x >>= f) (y >>= g) := by
  cases hx with
  | ok a => exact hf a
  | error h => exact .error h

end Reading.Agree

namespace ActionLaws
variable {σ α β : Type}

inductive ResultsAgree : EStateM.Result Cause σ α → EStateM.Result Cause σ α → Prop where
  | ok (a : α) (s : σ) : ResultsAgree (.ok a s) (.ok a s)
  | error {e e' : Cause} (h : e.Alike e') (s : σ) : ResultsAgree (.error e s) (.error e' s)

def Agree (x y : EStateM Cause σ α) : Prop := ∀ s, ResultsAgree (x s) (y s)

namespace Agree
variable {x y : EStateM Cause σ α}

theorem refl (x : EStateM Cause σ α) : Agree x x := by
  intro s
  cases x s with
  | ok a t => exact .ok a t
  | error e t => exact .error (.refl e) t

theorem bind {f g : α → EStateM Cause σ β} (hx : Agree x y) (hf : ∀ a, Agree (f a) (g a)) :
    Agree (x >>= f) (y >>= g) := by
  intro s
  simp only [Bind.bind, EStateM.bind]
  have hs := hx s
  generalize x s = r, y s = r' at hs ⊢
  cases hs with
  | ok a t => exact hf a t
  | error h t => exact .error h t

/-- The same continuation after actions that agree. -/
theorem andThen (hx : Agree x y) (f : α → EStateM Cause σ β) : Agree (x >>= f) (y >>= f) :=
  hx.bind fun _ => .refl _

theorem read {f g : Store → Except Cause α} (h : ∀ s, Reading.Agree (f s) (g s)) :
    Agree (Store.Action.read f) (Store.Action.read g) := by
  intro s
  have hs := h s
  simp only [Store.Action.read]
  generalize f s = r, g s = r' at hs ⊢
  cases hs with
  | ok a => exact .ok a s
  | error h => exact .error h s

theorem look {f g : Progress → Except Cause α} (h : ∀ p, Reading.Agree (f p) (g p)) :
    Agree (Step.look f) (Step.look g) := by
  intro p
  have hp := h p
  simp only [Step.look]
  generalize f p = r, g p = r' at hp ⊢
  cases hp with
  | ok a => exact .ok a p
  | error h => exact .error h p

theorem onStore {x y : Store.Action α} (h : Agree x y) :
    Agree (Step.onStore x) (Step.onStore y) := by
  intro p
  have hp := h p.store
  simp only [Step.onStore]
  generalize x p.store = r, y p.store = r' at hp ⊢
  cases hp with
  | ok a s => exact .ok a { p with store := s }
  | error h s => exact .error h { p with store := s }

theorem guard {p : Prop} [Decidable p] (e : Cause) (h : Agree x y) :
    Agree (if p then throw e else x) (if p then throw e else y) := by
  split
  · exact .refl _
  · exact h

end Agree
end ActionLaws

namespace Changeset
variable {c c' : Changeset} (s : Store) (created : List Handle) (t : TableKey)

theorem SameName.agree {a b : NameId} (h : c.SameName c' a b) :
    Reading.Agree (c.name a) (c'.name b) := by
  simp only [SameName, name] at h ⊢
  cases hc : c.strings[a.index.toNat]? <;> cases hc' : c'.strings[b.index.toNat]? <;>
    simp only [hc, hc', Except.toOption, Option.some.injEq, reduceCtorEq] at h
  · exact .error (.unknownString _ _)
  · exact h ▸ .ok _

theorem SameString.agree {a b : StringRange} (h : c.SameString c' a b) :
    Reading.Agree (c.string a) (c'.string b) := by
  simp only [SameString, string] at h ⊢
  cases hc : Text.slice? c.buffer.toList a.offset.toNat a.size.toNat <;>
    cases hc' : Text.slice? c'.buffer.toList b.offset.toNat b.size.toNat <;>
    simp only [hc, hc', Except.toOption, Option.some.injEq, reduceCtorEq] at h
  · exact .error (.badStringRange _ _ _ _)
  · simp only [h]
    exact .ok _

theorem primaryKey_agree {k k' : KeyPayload} (h : KeyPayload.Alike c c' k k') :
    Reading.Agree (c.primaryKey k) (c'.primaryKey k') := by
  cases h with
  | null => exact .refl _
  | int n => exact .refl _
  | string same => exact same.agree.bind fun _ => .refl _

theorem table_agree {a b : NameId} (h : c.SameName c' a b) :
    Reading.Agree (c.table s a) (c'.table s b) :=
  h.agree.bind fun _ => .refl _

theorem column_agree {a b : NameId} (h : c.SameName c' a b) :
    Reading.Agree (c.column s t a) (c'.column s t b) :=
  h.agree.bind fun _ => .refl _

theorem object_agree {r r' : ObjectRef} (h : ObjectRef.Alike c c' r r') :
    Reading.Agree (c.object s created t r) (c'.object s created t r') := by
  cases h with
  | created index => exact .refl _
  | primaryKey key => exact (primaryKey_agree key).bind fun _ => .refl _
  | key object => exact .refl _

theorem linkedObject_agree {r r' : ObjectRef} (field : String) (h : ObjectRef.Alike c c' r r') :
    Reading.Agree (c.linkedObject s created field t r) (c'.linkedObject s created field t r') := by
  have hobject := object_agree s created t h
  cases h with
  | created index => exact .refl _
  | primaryKey key => exact hobject
  | key object => exact .refl _

theorem createTable_agree {a b : NameId} {k k' : Option KeySpec} (table : c.SameName c' a b)
    (key : Option.Rel (KeySpec.Alike c c') k k') :
    ActionLaws.Agree (c.createTable a k) (c'.createTable b k') := by
  simp only [createTable, ActionLaws.throw_bind]
  refine .bind (.read fun _ => table.agree) fun name => .bind (.refl _) fun s => .guard _ ?_
  cases key with
  | none => exact .refl _
  | some h =>
    simp only [h.type, h.nullable]
    exact .andThen (.read fun _ => h.column.agree) _

end Changeset

namespace Selection
variable {c c' : Changeset} (s : Store) (created : List Handle) (sel : Selection)

theorem selectTable_agree {a b : NameId} (h : c.SameName c' a b) :
    Reading.Agree (selectTable c s a) (selectTable c' s b) :=
  h.agree.bind fun _ => .refl _

theorem selectableColumn_agree {a b : NameId} (t : TableKey) (h : c.SameName c' a b) :
    Reading.Agree (selectableColumn c s t a) (selectableColumn c' s t b) :=
  h.agree.bind fun _ => .refl _

theorem selectField_agree {r r' : ObjectRef} {a b : NameId} (object : ObjectRef.Alike c c' r r')
    (field : c.SameName c' a b) :
    Reading.Agree (sel.selectField c s created r a) (sel.selectField c' s created r' b) := by
  refine .bind (.refl _) fun t => .bind (selectableColumn_agree s t field) fun column => ?_
  by_cases hlist : ¬column.definition.isList ∨ column.definition.isLinkList
  · simp only [hlist, if_true]
    exact .refl _
  · simp only [hlist, if_false]
    exact (Changeset.object_agree s created t object).bind fun _ => .refl _

theorem selectLinkList_agree {r r' : ObjectRef} {a b : NameId} (object : ObjectRef.Alike c c' r r')
    (field : c.SameName c' a b) :
    Reading.Agree (sel.selectLinkList c s created r a) (sel.selectLinkList c' s created r' b) := by
  refine .bind (.refl _) fun t => .bind (selectableColumn_agree s t field) fun column => ?_
  cases column.definition.linkTarget with
  | none => exact .refl _
  | some target =>
    cases column.definition.isLinkList with
    | false => exact .refl _
    | true =>
      cases hfound : s.findTable target with
      | none =>
        simp only [hfound]
        exact .refl _
      | some key =>
        simp only [hfound, pure_bind]
        exact (Changeset.object_agree s created t object).bind fun _ => .refl _

end Selection

namespace Step
open ActionLaws
variable {c c' : Changeset} (sel : Selection)

theorem newColumn_agree {a b : NameId} {target target' : Option NameId} (type : ValueType)
    (nullable isList : Bool) (column : c.SameName c' a b)
    (linked : Option.Rel (c.SameName c') target target') :
    Reading.Agree (newColumn c a type nullable isList target)
      (newColumn c' b type nullable isList target') := by
  refine column.agree.bind fun name => ?_
  cases linked with
  | none => exact .refl _
  | some h => exact h.agree.bind fun _ => .refl _

theorem scalarField_agree {r r' : ObjectRef} {a b : NameId} (p : Progress)
    (object : ObjectRef.Alike c c' r r') (field : c.SameName c' a b) :
    Reading.Agree (scalarField c sel p r a) (scalarField c' sel p r' b) := by
  refine .bind (.refl _) fun t => .bind (Changeset.column_agree _ t field) fun column => ?_
  by_cases hlist : column.definition.isList
  · simp only [hlist, if_true]
    exact .refl _
  · simp only [hlist]
    exact (Changeset.object_agree _ _ t object).bind fun _ => .refl _

theorem value_agree {v v' : Payload} (p : Progress) (d : ColumnDef) (target : Option TableKey)
    (h : Payload.Alike c c' v v') :
    Reading.Agree (value c p d target v) (value c' p d target v') := by
  cases h with
  | string same => exact same.agree.bind fun _ => .refl _
  | link object =>
    cases target with
    | none => exact .refl _
    | some t => exact (Changeset.linkedObject_agree _ _ t d.name object).bind fun _ => .refl _
  | _ => exact .refl _

theorem addTable_agree {a b : NameId} {k k' : Option KeySpec} (table : c.SameName c' a b)
    (key : Option.Rel (KeySpec.Alike c c') k k') :
    Agree (addTable c sel a k) (addTable c' sel b k') :=
  .andThen (.onStore (Changeset.createTable_agree table key)) _

theorem eraseTable_agree {a b : NameId} (table : c.SameName c' a b) :
    Agree (eraseTable c sel a) (eraseTable c' sel b) :=
  .andThen (.look fun p => Changeset.table_agree p.store table) _

theorem addColumn_agree {a b : NameId} (d : ColumnDef) (table : c.SameName c' a b) :
    Agree (addColumn c sel a d) (addColumn c' sel b d) :=
  .andThen (.look fun p => Changeset.table_agree p.store table) _

theorem eraseColumn_agree {a b x y : NameId} (table : c.SameName c' a b)
    (column : c.SameName c' x y) : Agree (eraseColumn c sel a x) (eraseColumn c' sel b y) :=
  .bind (.look fun p => Changeset.table_agree p.store table) fun t =>
    .andThen (.look fun p => Changeset.column_agree p.store t column) _

theorem selectTable_agree {a b : NameId} (table : c.SameName c' a b) :
    Agree (selectTable c a) (selectTable c' b) :=
  .andThen (.look fun p => Selection.selectTable_agree p.store table) _

theorem selectField_agree {r r' : ObjectRef} {x y : NameId} (object : ObjectRef.Alike c c' r r')
    (field : c.SameName c' x y) : Agree (selectField c sel r x) (selectField c' sel r' y) :=
  .andThen (.look fun p => Selection.selectField_agree p.store p.created sel object field) _

theorem selectLinkList_agree {r r' : ObjectRef} {x y : NameId} (object : ObjectRef.Alike c c' r r')
    (field : c.SameName c' x y) : Agree (selectLinkList c sel r x) (selectLinkList c' sel r' y) :=
  .andThen (.look fun p => Selection.selectLinkList_agree p.store p.created sel object field) _

theorem createObject_agree {k k' : Option KeyPayload}
    (key : Option.Rel (KeyPayload.Alike c c') k k') :
    Agree (createObject c sel k) (createObject c' sel k') := by
  refine .bind (.refl _) fun t => ?_
  cases key with
  | none => exact .refl _
  | some h => exact .andThen (.look fun _ => Changeset.primaryKey_agree h) _

theorem eraseObject_agree {r r' : ObjectRef} (object : ObjectRef.Alike c c' r r') :
    Agree (eraseObject c sel r) (eraseObject c' sel r') :=
  .bind (.refl _) fun t =>
    .andThen (.look fun p => Changeset.object_agree p.store p.created t object) _

theorem set_agree {r r' : ObjectRef} {x y : NameId} {v v' : Payload}
    (object : ObjectRef.Alike c c' r r') (field : c.SameName c' x y)
    (value : Payload.Alike c c' v v') : Agree (set c sel r x v) (set c' sel r' y v') := by
  refine .bind (.look fun p => scalarField_agree sel p object field) fun ⟨t, o, column⟩ => ?_
  refine .bind (.refl _) fun target => ?_
  exact .andThen (.look fun p => value_agree p column.definition target value) _

theorem addInteger_agree {r r' : ObjectRef} {x y : NameId} (delta : Int64)
    (object : ObjectRef.Alike c c' r r') (field : c.SameName c' x y) :
    Agree (addInteger c sel r x delta) (addInteger c' sel r' y delta) :=
  .andThen (.look fun p => scalarField_agree sel p object field) _

theorem writeSelected_agree {v v' : Payload}
    (edit : Value → List Value → Except Cause (List Value)) (effect : String → Value → Effect)
    (value : Payload.Alike c c' v v') :
    Agree (writeSelected c sel v edit effect) (writeSelected c' sel v' edit effect) :=
  .bind (.refl _) fun ⟨l, column⟩ =>
    .andThen (.look fun p => value_agree p column.definition l.target value) _

/-- Alike instructions do the same under every selection, whatever has been done before. -/
theorem dispatch_agree {i i' : Instruction} (h : i.Alike c c' i') :
    Agree (dispatch c sel i) (dispatch c' sel i') := by
  cases h with
  | addTable table key => exact addTable_agree sel table key
  | eraseTable table => exact eraseTable_agree sel table
  | addColumn type nullable isList table column target =>
    exact .bind (.look fun _ => newColumn_agree type nullable isList column target)
      fun d => addColumn_agree sel d table
  | eraseColumn table column => exact eraseColumn_agree sel table column
  | selectTable table => exact selectTable_agree table
  | selectField object field => exact selectField_agree sel object field
  | selectLinkList object field => exact selectLinkList_agree sel object field
  | createObject key => exact createObject_agree sel key
  | eraseObject object => exact eraseObject_agree sel object
  | set object field value => exact set_agree sel object field value
  | addInteger delta object field => exact addInteger_agree sel delta object field
  | listInsert i value =>
    rw [dispatch_listInsert, dispatch_listInsert]
    exact writeSelected_agree sel _ _ value
  | listSet i value =>
    rw [dispatch_listSet, dispatch_listSet]
    exact writeSelected_agree sel _ _ value
  | listErase | listMove | listSwap | listClear => exact .refl _

end Step

namespace Replay
variable {c c' : Changeset}

structure TrailsAgree (trail trail' : Trail) : Prop where
  progress : trail.progress = trail'.progress
  selection : trail.selection = trail'.selection
  events : trail.events = trail'.events
  failure : Option.Rel Failure.Alike trail.failure trail'.failure

theorem run_agree {is is' : List Instruction}
    (h : List.Forall₂ (Instruction.Alike c c') is is') (index : Nat) (sel : Selection)
    (p : Progress) : TrailsAgree (run c index sel is p) (run c' index sel is' p) := by
  induction h generalizing index sel p with
  | nil => exact ⟨rfl, rfl, rfl, .none⟩
  | cons hi _ ih =>
    have hstep := Step.dispatch_agree sel hi p
    simp only [run, ← hi.kind_eq]
    generalize Step.dispatch c sel _ p = r, Step.dispatch c' sel _ p = r' at hstep ⊢
    cases hstep with
    | ok a q =>
      have htrail := ih (index + 1) a.1 q
      exact ⟨htrail.progress, htrail.selection, by simp only [htrail.events], htrail.failure⟩
    | error he q => exact ⟨rfl, rfl, rfl, .some ⟨rfl, rfl, he⟩⟩

theorem check_eq_of_alike (h : c.Alike c') (limits : Limits) (s : Store) :
    check limits c s = check limits c' s := by
  simp only [check, h.schemaVersion, h.instructions.length_eq]

end Replay

theorem ApplyError.kind_eq_of_alike {e e' : Option ApplyError} (h : Option.Rel Alike e e') :
    e.map kind = e'.map kind := by
  cases h with
  | none => rfl
  | some h => simp only [Option.map_some, h.kind_eq]

theorem ApplyError.alike_of_failures {f f' : Option Failure} (h : Option.Rel Failure.Alike f f') :
    Option.Rel Alike (f.map .instruction) (f'.map .instruction) := by
  cases h with
  | none => exact .none
  | some h => exact .some (.instruction h)

/-- Alike changesets, applied under the same limits to the same store, leave equal stores and record
equal events, and either both succeed or both fail, at the same instruction and for the same
reason. -/
theorem apply_of_alike {c c' : Changeset} (h : c.Alike c') (limits : Limits) (s : Store) :
    (s.apply limits c).store = (s.apply limits c').store ∧
    (s.apply limits c).events = (s.apply limits c').events ∧
    Option.Rel ApplyError.Alike (s.apply limits c).error (s.apply limits c').error ∧
    (s.apply limits c).error.map (·.kind) = (s.apply limits c').error.map (·.kind) := by
  suffices hagree : (s.apply limits c).store = (s.apply limits c').store ∧
      (s.apply limits c).events = (s.apply limits c').events ∧
      Option.Rel ApplyError.Alike (s.apply limits c).error (s.apply limits c').error from
    ⟨hagree.1, hagree.2.1, hagree.2.2, ApplyError.kind_eq_of_alike hagree.2.2⟩
  have hcheck := Replay.check_eq_of_alike h limits s
  simp only [Store.apply, ← hcheck]
  cases Replay.check limits c s with
  | error e => exact ⟨rfl, rfl, .some (.refl e)⟩
  | ok u =>
    have htrail := Replay.run_agree h.instructions 0 .none ⟨s, []⟩
    exact ⟨congrArg Progress.store htrail.progress, htrail.events,
      ApplyError.alike_of_failures htrail.failure⟩

/-- A person is created under a name, and then a table is erased that has no name. -/
def Changeset.guestbook : Changeset :=
  ⟨1, ["people", "name"], "Ada", [.addTable ⟨0⟩ (some ⟨⟨1⟩, .string, false⟩), .selectTable ⟨0⟩,
    .createObject (some (.string ⟨0, 3⟩)), .eraseTable ⟨2⟩]⟩

/-- The same with the names in another order, one of them twice, and a longer buffer. -/
def Changeset.rearranged : Changeset :=
  ⟨1, ["name", "people", "name"], "by Ada", [.addTable ⟨1⟩ (some ⟨⟨2⟩, .string, false⟩),
    .selectTable ⟨1⟩, .createObject (some (.string ⟨3, 3⟩)), .eraseTable ⟨7⟩]⟩

theorem apply_of_alike_guestbook :
    Changeset.guestbook.Alike .rearranged ∧
    ((Store.new 1).apply .standard .guestbook).store =
      ((Store.new 1).apply .standard .rearranged).store ∧
    ((Store.new 1).apply .standard .guestbook).error =
      some (.instruction ⟨3, .eraseTable, .unknownString 2⟩) ∧
    ((Store.new 1).apply .standard .rearranged).error =
      some (.instruction ⟨3, .eraseTable, .unknownString 7⟩) := by
  have halike : Changeset.guestbook.Alike .rearranged := by
    refine ⟨rfl, .cons (.addTable (by rfl) (.some ⟨by rfl, rfl, rfl⟩)) ?_⟩
    refine .cons (.selectTable (by rfl)) (.cons (.createObject (.some (.string (by rfl)))) ?_)
    exact .cons (.eraseTable (by rfl)) .nil
  exact ⟨halike, (apply_of_alike halike .standard (.new 1)).1, by rfl, by rfl⟩

end ChangesetReplay
