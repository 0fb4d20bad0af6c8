import ChangesetReplay.Proofs.SnapshotOutlines

/-! # Histories of stores

A history of a store is a list of operations, successful or not, between which the store may be
replaced by what is restored from its snapshot, directly or by way of a text. The counters may run
out, and not every float has to be read back: the store is intact all along, which is to say
coherent and filled, with links that lead to objects; and an object stays until a turn of the
history erases it. The store is also sound, as long as no counter runs over. -/

namespace ChangesetReplay

theorem Store.Reachable.coherent {v : SchemaVersion} {s : Store} (h : Reachable v s) :
    s.Coherent := Reaches.invariant h (.new v) fun hs _ hchange => hchange.coherent hs

/-- What every store is that comes of an empty one, even once its counters have run out. -/
structure Store.Intact (s : Store) : Prop where
  coherent : s.Coherent
  filled : s.Filled
  linked : s.Linked

theorem Store.Intact.new (v : SchemaVersion) : (Store.new v).Intact :=
  ⟨.new v, .new v, by simp [Linked, Store.new]⟩

theorem Store.Change.intact {s s' : Store} (hc : s.Change s') (h : s.Intact) : s'.Intact :=
  ⟨hc.coherent h.coherent, hc.filled h.filled, hc.linked h.filled h.linked⟩

theorem Store.RestoresTo.intact {s s' : Store} (hr : s.RestoresTo s') (h : s.Intact) : s'.Intact :=
  ⟨hr.coherent h.coherent, (hr.sound h.filled).filled,
    (hr.sameOutline h.coherent.named).linked h.linked⟩

/-- How a snapshot comes to the store that imports it: as it is, or as a text, with or without
indentation. -/
inductive Transport where
  | direct
  | text (pretty : Bool)

def Snapshot.text (x : Snapshot) (pretty : Bool) : String :=
  if pretty then x.toPrettyText else x.toText

theorem Snapshot.text_mem_texts (x : Snapshot) (pretty : Bool) : x.text pretty ∈ x.texts := by
  cases pretty <;> simp [text, texts]

/-- What arrives of a snapshot; of a text that cannot be read, nothing. -/
def Transport.arrived? (x : Snapshot) : Transport → Option Snapshot
  | direct => some x
  | text pretty =>
    match Snapshot.ofText (x.text pretty) with
    | .ok y => some y
    | .error _ => none

theorem Transport.restoresTo {s : Store} {x : Snapshot} {transport : Transport}
    (h : transport.arrived? s.exportState = some x) (hx : x.Consistent) :
    s.RestoresTo x.store := by
  cases transport with
  | direct =>
    cases h
    exact .of_export hx
  | text pretty =>
    cases hread : Snapshot.ofText (s.exportState.text pretty) with
    | error e => simp [arrived?, hread] at h
    | ok y =>
      simp only [arrived?, hread, Option.some.injEq] at h
      exact h ▸ .of_text (s.exportState.text_mem_texts pretty) hread

/-- One thing that can happen to a store: an operation, or that it is replaced by what is restored
from its snapshot. -/
inductive Turn where
  | operate (op : Operation)
  | restore (transport : Transport)

namespace Turn

/-- What a turn leaves of a store. A snapshot that does not arrive, or is not imported, leaves it as
it was. -/
def after (s : Store) : Turn → Store
  | operate op => op.after s
  | restore transport =>
    match transport.arrived? s.exportState with
    | none => s
    | some x =>
      match Store.importState x s with
      | .ok _ s' => s'
      | .error _ s' => s'

def afterAll (s : Store) (turns : List Turn) : Store := turns.foldl (fun s turn => turn.after s) s

def Erases (s : Store) (x : Handle) : Turn → Prop
  | operate op => op.Erases s x
  | restore _ => False

def Spare (s : Store) (x : Handle) : List Turn → Prop
  | [] => True
  | turn :: rest => ¬turn.Erases s x ∧ Spare (turn.after s) x rest

variable {s : Store} {turn : Turn} {turns earlier later : List Turn}

theorem afterAll_append (s : Store) (earlier later : List Turn) :
    afterAll s (earlier ++ later) = afterAll (afterAll s earlier) later := List.foldl_append

theorem after_call {s' : Store} {call : Store.Call} {a : Store.Answer}
    (h : call.run s = .ok a s') : (operate (.call call)).after s = s' := by
  simp only [after, Operation.after, h]

/-- A store stays as it is, or what is restored is what its snapshot describes, but for the
floats. -/
theorem after_restore_cases (s : Store) (transport : Transport) :
    (restore transport).after s = s ∨ s.RestoresTo ((restore transport).after s) := by
  cases harrived : transport.arrived? s.exportState with
  | none =>
    left
    simp only [after, harrived]
  | some x =>
    cases himport : Store.importState x s with
    | error e s' =>
      left
      have hsame := Store.importState_atomic x s e s' himport
      simp only [after, harrived, himport, hsame]
    | ok u s' =>
      right
      have hafter : (restore transport).after s = s' := by simp only [after, harrived, himport]
      obtain ⟨hx, rfl⟩ := Store.importState_ok_iff.mp himport
      exact hafter ▸ Transport.restoresTo harrived hx

/-- Where all numbers are read back, a sound store is restored as it was. -/
theorem after_restore (hs : s.Sound) (hback : s.ReadsBack) (transport : Transport) :
    (restore transport).after s = s := by
  obtain ⟨x, hx, himport⟩ : ∃ x, transport.arrived? s.exportState = some x ∧
      ∀ before, Store.importState x before = .ok () s := by
    cases transport with
    | direct =>
      refine ⟨_, rfl, fun before => ?_⟩
      rw [Store.import_store hs.export_consistent, hs.store_exportState]
    | text pretty =>
      obtain ⟨x, hx, himport⟩ := hs.restore hback (s.exportState.text_mem_texts pretty)
      exact ⟨x, by simp only [Transport.arrived?, hx], himport⟩
  simp only [after, hx, himport]

/-- What every change and every restored store preserves is preserved by a turn. -/
theorem after_invariant {P : Store → Prop} (hchange : ∀ {s s'}, s.Change s' → P s → P s')
    (hrestore : ∀ {s s'}, s.RestoresTo s' → P s → P s') (h : P s) : P (turn.after s) := by
  cases turn with
  | operate op =>
    show P (op.after s)
    rcases op.change s with hsame | hchanged
    · rwa [hsame]
    · exact hchange hchanged h
  | restore transport =>
    rcases after_restore_cases s transport with hsame | hrestored
    · rwa [hsame]
    · exact hrestore hrestored h

theorem afterAll_invariant {P : Store → Prop} (hchange : ∀ {s s'}, s.Change s' → P s → P s')
    (hrestore : ∀ {s s'}, s.RestoresTo s' → P s → P s') (h : P s) : P (afterAll s turns) := by
  induction turns generalizing s with
  | nil => exact h
  | cons turn rest ih => exact ih (after_invariant hchange hrestore h)

theorem after_coherent (h : s.Coherent) : (turn.after s).Coherent :=
  after_invariant Store.Change.coherent Store.RestoresTo.coherent h

/-- Every store of the history of a coherent store is coherent. -/
theorem afterAll_coherent (h : s.Coherent) : (afterAll s turns).Coherent :=
  afterAll_invariant Store.Change.coherent Store.RestoresTo.coherent h

theorem afterAll_intact (h : s.Intact) : (afterAll s turns).Intact :=
  afterAll_invariant Store.Change.intact Store.RestoresTo.intact h

/-- No turn of the history moves a counter that has come to its last value. -/
def InRange (s : Store) : List Turn → Prop
  | [] => True
  | turn :: rest => s.RoomFor (turn.after s) ∧ InRange (turn.after s) rest

def Roomy (s : Store) : List Turn → Prop
  | [] => True
  | turn :: rest => s.HasRoom ∧ Roomy (turn.after s) rest

instance decidableRoomy : ∀ (s : Store) (turns : List Turn), Decidable (Roomy s turns)
  | _, [] => .isTrue trivial
  | s, turn :: rest =>
    have := decidableRoomy (turn.after s) rest
    inferInstanceAs (Decidable (s.HasRoom ∧ Roomy (turn.after s) rest))

theorem Roomy.inRange (h : Roomy s turns) : InRange s turns := by
  induction turns generalizing s with
  | nil => trivial
  | cons turn rest ih => exact ⟨h.1.roomFor _, ih h.2⟩

theorem roomy_append_iff :
    Roomy s (earlier ++ later) ↔ Roomy s earlier ∧ Roomy (afterAll s earlier) later := by
  induction earlier generalizing s with
  | nil => exact (and_iff_right trivial).symm
  | cons turn rest ih => exact (and_congr_right' ih).trans and_assoc.symm

theorem after_sound (hs : s.Sound) (hroom : s.RoomFor (turn.after s)) : (turn.after s).Sound := by
  cases turn with
  | operate op =>
    change s.RoomFor (op.after s) at hroom
    show (op.after s).Sound
    rcases op.change s with hsame | hchange
    · rwa [hsame]
    · exact hchange.sound_of_roomFor hs hroom
  | restore transport =>
    rcases after_restore_cases s transport with hsame | hrestored
    · rwa [hsame]
    · exact hrestored.sound hs.filled

theorem afterAll_sound (hs : s.Sound) (hrange : InRange s turns) : (afterAll s turns).Sound := by
  induction turns generalizing s with
  | nil => exact hs
  | cons turn rest ih => exact ih (after_sound hs hrange.1) hrange.2

/-- A turn takes away what it erases, and leaves all else. -/
theorem keeps (h : s.Coherent) (turn : Turn) :
    ∃ loss, s.Keeps loss (turn.after s) ∧ ∀ x, loss.Takes x ↔ turn.Erases s x := by
  cases turn with
  | operate op => exact op.keeps s
  | restore transport =>
    refine ⟨.nothing, ?_, fun _ => Iff.rfl⟩
    rcases after_restore_cases s transport with hsame | hrestored
    · rw [hsame]
      exact .refl
    · exact (hrestored.sameOutline h.named).keeps

end Turn
end ChangesetReplay
