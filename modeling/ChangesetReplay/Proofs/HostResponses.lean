import ChangesetReplay.Host
import ChangesetReplay.Proofs.ImportedStores
import ChangesetReplay.Proofs.RaisedCauses
import ChangesetReplay.Proofs.SnapshotForms

/-! # Responses to a host

A response is one JSON text. No such text has a null in it, whatever the strings in it stand for, so
none is ever replaced on its way to the host. And it tells the host what has become of its store:
that it is as it was, how much of a changeset was applied, or that a snapshot has taken its place. -/

namespace ChangesetReplay

namespace Json

/-- A null is no part of a token, and does not separate tokens. -/
theorem Scanner.step?_null (s : Scanner) : s.step? '\x00' = none := by
  obtain ⟨found, scan⟩ := s
  have hbegin : ∀ found, begin? found '\x00' = none := fun _ => rfl
  cases scan with
  | between => exact hbegin found
  | word read =>
    show (Token.ofWord? read.reverse).bind (fun t => begin? (t :: found) '\x00') = none
    cases Token.ofWord? read.reverse with
    | none => rfl
    | some t => exact hbegin _
  | string read => rfl
  | escape read => rfl
  | unit read missing => rfl

theorem foldlM_null {cs : List Char} (h : '\x00' ∈ cs) (s : Scanner) :
    cs.foldlM Scanner.step? s = none := by
  induction cs generalizing s with
  | nil => cases h
  | cons c cs ih =>
    rw [List.foldlM_cons]
    rcases List.mem_cons.mp h with rfl | h
    · rw [Scanner.step?_null]
      rfl
    · cases Scanner.step? s c with
      | none => rfl
      | some s' => exact ih h s'

/-- A text that can be read as JSON has no null in it. -/
theorem null_not_mem_of_ofText? {text : String} {j : Json} (h : ofText? text = some j) :
    '\x00' ∉ text.toList := by
  intro hmem
  simp [ofText?, tokens?, foldlM_null hmem] at h

end Json

namespace Host

/-- A well-formed value is sent as it is written. -/
theorem send_compact {j : Json} (h : j.WellFormed) : send j.compact = j.compact :=
  if_neg (Json.null_not_mem_of_ofText? (Json.ofText?_compact h))

namespace Fault

theorem wellFormed_toJson (f : Fault) : f.toJson.WellFormed := by
  refine Json.wellFormed_ofMembers.mpr fun m hm => ?_
  simp only [List.mem_append, List.mem_singleton, Option.mem_toList, Option.map_eq_some_iff] at hm
  rcases hm with ((rfl | ⟨k, -, rfl⟩) | ⟨i, -, rfl⟩) | ⟨k, -, rfl⟩
  · exact Json.wellFormed_ofString _
  · exact Json.wellFormed_ofString _
  · exact Json.wellFormed_ofNat i
  · exact Json.wellFormed_ofString _

/-- What is known of a fault stands in members of its own. -/
theorem fields?_toJson (f : Fault) : f.toJson.fields? ["message", "kind", "index"] =
    some [some (.ofString f.message), f.kind.map fun k => .ofString k.name,
      f.index.map .ofNat] := by
  obtain ⟨message, kind, index, instruction⟩ := f
  cases kind <;> cases index <;> cases instruction <;>
    simp [toJson, Json.fields?_ofMembers, Json.lookup_cons]

end Fault

theorem failure_eq (f : Fault) : failure f = Json.compact (.ofMembers [("error", f.toJson)]) :=
  send_compact (by simp [f.wellFormed_toJson])

theorem ofText?_failure (f : Fault) :
    Json.ofText? (failure f) = some (.ofMembers [("error", f.toJson)]) := by
  rw [failure_eq]
  exact Json.ofText?_compact (by simp [f.wellFormed_toJson])

theorem success_eq {j : Json} (h : j.WellFormed) :
    success j = Json.compact (.ofMembers [("ok", j)]) :=
  send_compact (by simp [h])

theorem ofText?_success {j : Json} (h : j.WellFormed) :
    Json.ofText? (success j) = some (.ofMembers [("ok", j)]) := by
  rw [success_eq h]
  exact Json.ofText?_compact (by simp [h])

/-- What a host reads off a response: the result of a call, or the message of a failure, with its
kind and the index of the instruction that failed, if it tells them. -/
inductive Report where
  | done (result : Json)
  | failed (message : String) (kind : Option String) (index : Option Nat)

namespace Report

def ofText? (text : String) : Option Report := do
  match ← (← Json.ofText? text).fields? ["ok", "error"] with
  | [some result, none] => some (done result)
  | [none, some fault] => do
    let [some message, kind, index] ← fault.fields? ["message", "kind", "index"] | none
    some (failed (← message.text?) (← Json.getOr none (fun j => j.text?.map some) kind)
      (← Json.getOr none (fun j => j.int?.map fun n => some n.toNat) index))
  | _ => none

theorem ofText?_success {j : Json} (h : j.WellFormed) : ofText? (success j) = some (.done j) := by
  simp [ofText?, Host.ofText?_success h, Json.fields?_ofMembers, Json.lookup_cons]

theorem ofText?_failure (f : Fault) :
    ofText? (failure f) = some (.failed f.message (f.kind.map (·.name)) f.index) := by
  have hread := Host.ofText?_failure f
  have hfields := f.fields?_toJson
  cases hkind : f.kind <;> cases hindex : f.index <;>
    simp [ofText?, hread, Json.fields?_ofMembers, Json.lookup_cons, hfields, hkind, hindex,
      Json.getOr, Json.int?, Json.ofNat]

end Report

/-- A response that is one JSON value without a null, and not the one that stands in for a response
that could not be sent. -/
structure Genuine (response : String) : Prop where
  json : ∃ j, Json.ofText? response = some j
  no_null : '\x00' ∉ response.toList
  kept : response ≠ nullByteResponse

theorem nullByteResponse_eq :
    nullByteResponse = failure (.ofMessage "string contained null bytes") :=
  (failure_eq _).symm

theorem Genuine.success {j : Json} (h : j.WellFormed) : Genuine (success j) := by
  have hread := ofText?_success h
  refine ⟨⟨_, hread⟩, Json.null_not_mem_of_ofText? hread, fun heq => ?_⟩
  have hreport := Report.ofText?_success h
  rw [heq, nullByteResponse_eq, Report.ofText?_failure] at hreport
  cases hreport

theorem Genuine.failure {f : Fault}
    (h : f.kind = none → f.message ≠ "string contained null bytes") : Genuine (failure f) := by
  have hread := ofText?_failure f
  refine ⟨⟨_, hread⟩, Json.null_not_mem_of_ofText? hread, fun heq => ?_⟩
  have hreport := Report.ofText?_failure f
  rw [heq, nullByteResponse_eq, Report.ofText?_failure, Option.some.injEq,
    Report.failed.injEq] at hreport
  exact h (Option.map_eq_none_iff.mp hreport.2.1.symm) hreport.1.symm

theorem head?_append (a b : String) {c : Char} (h : a.toList.head? = some c) :
    (a ++ b).toList.head? = some c := by
  simp only [String.toList_append, List.head?_append, h, Option.some_or]

/-- The message that stands in for a response begins with an s. -/
theorem message_ne {message : String} {c : Char} (h : message.toList.head? = some c)
    (hc : c ≠ 's') : message ≠ "string contained null bytes" := by
  rintro rfl
  have hs : "string contained null bytes".toList.head? = some 's' := by decide
  exact hc (Option.some.inj (h.symm.trans hs))

theorem limitsError_message_ne (e : LimitsError) : e.message ≠ "string contained null bytes" := by
  cases e with
  | invalidMaxInstructions raw =>
    have h := head?_append "Invalid CARRY_REPLAY_MAX_INSTRUCTIONS value: " raw (c := 'I')
      (by decide)
    exact message_ne h (by decide)
  | invalidCheckSchemaVersion raw =>
    have h := head?_append "Invalid CARRY_REPLAY_CHECK_SCHEMA_VERSION value: " raw (c := 'I')
      (by decide)
    exact message_ne h (by decide)

/-- Whatever the reader says stands after what could not be read. -/
theorem unreadable_message_ne {what : String} {c : Char} (h : what.toList.head? = some c)
    (hc : c ≠ 's') (complaint : Option String) :
    (Fault.unreadable what complaint).message ≠ "string contained null bytes" := by
  cases complaint with
  | none => exact message_ne h hc
  | some m => exact message_ne (head?_append _ m (head?_append what ": " h)) hc

theorem refusal_message_ne {e : Cause} (h : e.Refuses) :
    e.message ≠ "string contained null bytes" := by
  obtain ⟨reason, rfl⟩ := h
  have h := head?_append "invalid snapshot: " reason (c := 'i') (by decide)
  exact message_ne h (by decide)

def changeset? (bytes : Option ByteArray) : Option Changeset :=
  (received? bytes).bind Changeset.ofText?

def snapshot? (bytes : Option ByteArray) : Option Snapshot := (received? bytes).bind Snapshot.parse?

end Host

/-- The first `n` instructions of a changeset turn the store `s` into `s'`, and none of them
fails. -/
structure Store.Applied (s : Store) (c : Changeset) (n : Nat) (s' : Store) : Prop where
  le : n ≤ c.instructions.length
  succeeds : (s.trail (c.upTo n)).failure = none
  store : (s.trail (c.upTo n)).progress.store = s'

namespace Store
variable {s : Store} {limits : Limits} {c : Changeset}

theorem StoppedAt.applied {f : Failure} (hcheck : Replay.check limits c s = .ok ())
    (h : s.StoppedAt limits c f) : s.Applied c f.index (s.apply limits c).store where
  le := Nat.le_of_lt h.index_lt
  succeeds := by
    have hbefore := h.before_succeeds
    rwa [apply_of_check (Replay.check_upTo hcheck f.index), Option.map_eq_none_iff] at hbefore
  store := h.before_store

theorem applied_of_success (hcheck : Replay.check limits c s = .ok ())
    (h : (s.trail c).failure = none) :
    s.Applied c c.instructions.length (s.apply limits c).store := by
  have hall : c.upTo c.instructions.length = c := by simp [Changeset.upTo]
  refine ⟨Nat.le_refl _, by rwa [hall], ?_⟩
  rw [hall, apply_of_check hcheck]

end Store

namespace Host
namespace Report

/-- What a report on a changeset tells of a store that was `s` before the call and is `s'` now: how
many instructions of the changeset were applied. -/
def TellsApplied (passed : Option Changeset) (s s' : Store) : Report → Prop
  | failed _ _ none => s' = s
  | failed _ _ (some i) => ∃ c, passed = some c ∧ i < c.instructions.length ∧ s.Applied c i s'
  | done result => ∃ c, passed = some c ∧
      result = .ofMembers [("applied", .ofNat c.instructions.length)] ∧
      s.Applied c c.instructions.length s'

def TellsImported (passed : Option Snapshot) (s s' : Store) : Report → Prop
  | failed .. => s' = s
  | done result => result = .null ∧ ∃ x, passed = some x ∧ x.Consistent ∧ s' = x.store

end Report

/-- A call is answered by a genuine response, and what that reports has the property `Tells` for the
store that the call leaves. -/
def Answers (Tells : Store → Report → Prop) (call : String × Option Store) : Prop :=
  ∃ response s' report, call = (response, some s') ∧ Genuine response ∧
    Report.ofText? response = some report ∧ Tells s' report

theorem Answers.failed {Tells : Store → Report → Prop} {f : Fault} {s' : Store}
    (hf : f.kind = none → f.message ≠ "string contained null bytes")
    (h : Tells s' (.failed f.message (f.kind.map (·.name)) f.index)) :
    Answers Tells (failure f, some s') :=
  ⟨_, s', _, rfl, .failure hf, Report.ofText?_failure f, h⟩

theorem Answers.done {Tells : Store → Report → Prop} {j : Json} {s' : Store} (hj : j.WellFormed)
    (h : Tells s' (.done j)) : Answers Tells (success j, some s') :=
  ⟨_, s', _, rfl, .success hj, Report.ofText?_success hj, h⟩

/-- The answer to a changeset that can be read, under limits that can be read. -/
theorem answers_applied (s : Store) (limits : Limits) (c : Changeset) :
    Answers (Report.TellsApplied (some c) s)
      (match (s.apply limits c).error with
        | some e => (failure (.ofError e), some (s.apply limits c).store)
        | none => (success (.ofMembers [("applied", .ofNat c.instructions.length)]),
          some (s.apply limits c).store)) := by
  cases hcheck : Replay.check limits c s with
  | error e =>
    have happly : s.apply limits c = ⟨s, [], some e⟩ := by simp only [Store.apply, hcheck]
    rw [happly]
    refine .failed (fun hkind => by cases hkind) ?_
    simp [Fault.ofError, Replay.failure?_of_check hcheck, Report.TellsApplied]
  | ok u =>
    have herror : (s.apply limits c).error = (s.trail c).failure.map .instruction := by
      rw [Store.apply_of_check hcheck]
    rw [herror]
    cases hfailure : (s.trail c).failure with
    | some f =>
      have hstop := Store.stoppedAt_of_failure hcheck hfailure
      refine .failed (fun hkind => by cases hkind) ?_
      exact ⟨c, rfl, hstop.index_lt, hstop.applied hcheck⟩
    | none =>
      refine .done (by simp) ?_
      exact ⟨c, rfl, rfl, Store.applied_of_success hcheck hfailure⟩

theorem answers_apply (environment : String → Option String) (s : Store)
    (bytes : Option ByteArray) (complaint : Option String) :
    Answers (Report.TellsApplied (changeset? bytes) s)
      (apply environment (some s) bytes complaint) := by
  cases hreceived : received? bytes with
  | none =>
    simp only [apply, hreceived]
    exact .failed (fun _ => by decide) rfl
  | some text =>
    cases hread : Changeset.ofText? text with
    | none =>
      simp only [apply, hreceived, hread]
      exact .failed (fun _ => unreadable_message_ne (c := 'p') (by decide) (by decide) _) rfl
    | some c =>
      have hpassed : changeset? bytes = some c := by simp [changeset?, hreceived, hread]
      cases hlimits : Limits.ofVariables environment with
      | error e =>
        simp only [apply, hreceived, hread, hlimits]
        exact .failed (fun _ => limitsError_message_ne e) rfl
      | ok limits =>
        rw [hpassed]
        simp only [apply, hreceived, hread, hlimits]
        exact answers_applied s limits c

theorem answers_import (s : Store) (bytes : Option ByteArray) (complaint : Option String) :
    Answers (Report.TellsImported (snapshot? bytes) s) (importState (some s) bytes complaint) := by
  cases hreceived : received? bytes with
  | none =>
    simp only [importState, hreceived]
    exact .failed (fun _ => by decide) rfl
  | some text =>
    cases hparse : Snapshot.parse? text with
    | none =>
      simp only [importState, hreceived, Snapshot.ofText, hparse]
      exact .failed (fun _ => unreadable_message_ne (c := 'i') (by decide) (by decide) _) rfl
    | some x =>
      have hpassed : snapshot? bytes = some x := by simp [snapshot?, hreceived, hparse]
      cases hvalid : x.validate with
      | error e =>
        simp only [importState, hreceived, Snapshot.ofText, hparse, hvalid]
        exact .failed (fun _ => refusal_message_ne (Snapshot.validate_raises e hvalid)) rfl
      | ok u =>
        have hx : x.Consistent := Snapshot.validate_ok_iff.mp hvalid
        have himport : Store.importState x s = .ok () x.store := Store.import_store hx s
        simp only [importState, hreceived, Snapshot.ofText, hparse, hvalid, himport]
        exact .done .null ⟨rfl, x, hpassed, hx, rfl⟩

/-- Every response is genuine, and tells the host what has become of its store, whatever the reader
says of a text that it cannot read. A failure is sent as it is, whatever its message says. -/
theorem responses_tell :
    (∀ environment s bytes complaint,
      Answers (Report.TellsApplied (changeset? bytes) s)
        (apply environment (some s) bytes complaint)) ∧
    (∀ s bytes complaint,
      Answers (Report.TellsImported (snapshot? bytes) s)
        (importState (some s) bytes complaint)) ∧
    (∀ s, Genuine (exportState (some s)) ∧
      Report.ofText? (exportState (some s)) = some (.done s.exportState.toJson)) ∧
    (∀ environment bytes complaint, ∃ response, Genuine response ∧
      apply environment none bytes complaint = (response, none) ∧
      importState none bytes complaint = (response, none) ∧ exportState none = response) ∧
    (∀ f, failure f = Json.compact (.ofMembers [("error", f.toJson)]) ∧
      Json.ofText? (failure f) = some (.ofMembers [("error", f.toJson)]) ∧
      '\x00' ∉ (failure f).toList) := by
  refine ⟨answers_apply, answers_import, fun s => ?_, fun environment bytes complaint => ?_,
    fun f => ?_⟩
  · have hwell := s.exportState.wellFormed_toJson
    exact ⟨.success hwell, Report.ofText?_success hwell⟩
  · exact ⟨_, .failure (f := .ofMessage "null store pointer") fun _ => by decide, rfl, rfl, rfl⟩
  · have hread := ofText?_failure f
    exact ⟨failure_eq f, hread, Json.null_not_mem_of_ofText? hread⟩

end Host

end ChangesetReplay
