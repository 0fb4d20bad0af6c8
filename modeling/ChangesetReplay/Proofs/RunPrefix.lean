import ChangesetReplay.Proofs.FailureAtomicity
import ChangesetReplay.Replay.Run

/-! # Runs that stop

A run over two lists in a row is a run over the first and, if that does not fail, a run over the
second. A run that fails has done what the run over the instructions before the failing one does,
and nothing else. -/

namespace ChangesetReplay

def Changeset.upTo (c : Changeset) (n : Nat) : Changeset :=
  { c with instructions := c.instructions.take n }

/-- A step looks only at the strings of its changeset. -/
theorem Step.dispatch_upTo (c : Changeset) (n : Nat) : dispatch (c.upTo n) = dispatch c := by
  funext sel i
  cases i <;> rfl

namespace Replay
variable {c : Changeset} {n : Nat} {sel : Selection} {l : List Instruction} {p : Progress}
variable {limits : Limits} {s : Store}

theorem run_append (l₁ l₂ : List Instruction) :
    run c n sel (l₁ ++ l₂) p =
      let first := run c n sel l₁ p
      match first.failure with
      | some _ => first
      | none =>
        let second := run c (n + l₁.length) first.selection l₂ first.progress
        { second with events := first.events ++ second.events } := by
  induction l₁ generalizing n sel p with
  | nil => rfl
  | cons i rest ih =>
    simp only [List.cons_append, run]
    cases hstep : Step.dispatch c sel i p with
    | error cause p' => rfl
    | ok r p' =>
      have hlen : n + (i :: rest).length = n + 1 + rest.length := by
        simp only [List.length_cons]
        omega
      simp only [ih, hlen]
      cases hf : (run c (n + 1) r.1 rest p').failure with
      | some f => simp only [hf]
      | none => simp only [List.cons_append]

theorem run_upTo (c : Changeset) (m : Nat) : run (c.upTo m) = run c := by
  funext n sel l
  induction l generalizing n sel with
  | nil => rfl
  | cons i rest ih =>
    funext p
    simp only [run, Step.dispatch_upTo]
    cases Step.dispatch c sel i p with
    | error cause p' => rfl
    | ok r p' => simp only [ih]

/-- A run without a failure records one event for each instruction, in order. -/
theorem run_events (h : (run c n sel l p).failure = none) :
    (run c n sel l p).events.map (fun e => (e.kind, e.index)) = (l.map (·.kind)).zipIdx n := by
  induction l generalizing n sel p with
  | nil => rfl
  | cons i rest ih =>
    simp only [run] at h ⊢
    cases hstep : Step.dispatch c sel i p with
    | error cause p' => simp [hstep] at h
    | ok r p' =>
      simp only [hstep] at h ⊢
      simp only [List.map_cons, List.zipIdx_cons, ih h]

/-- Where a run that failed stopped: the run over the instructions before does not fail, ends in the
same place, and the next instruction fails there. -/
theorem run_failure {f : Failure} (h : (run c n sel l p).failure = some f) :
    ∃ j i, l[j]? = some i ∧ f.index = n + j ∧ f.kind = i.kind ∧
      let before := run c n sel (l.take j) p
      before.failure = none ∧ run c n sel l p = { before with failure := some f } ∧
        Step.dispatch c before.selection i before.progress = .error f.cause before.progress := by
  induction l generalizing n sel p with
  | nil => simp [run] at h
  | cons i rest ih =>
    cases hstep : Step.dispatch c sel i p with
    | error cause p' =>
      -- the first instruction fails, so nothing has run before it
      cases Step.dispatch_atomic c sel i p cause p' hstep
      simp only [run, hstep, Option.some.injEq] at h
      subst h
      exact ⟨0, i, rfl, rfl, rfl, by simp [run, hstep]⟩
    | ok r p' =>
      simp only [run, hstep] at h
      obtain ⟨j, i', hi, hindex, hkind, hnone, hrun, hfail⟩ := ih h
      refine ⟨j + 1, i', by simpa using hi, by omega, hkind, ?_⟩
      simp only [List.take_succ_cons, run, hstep]
      exact ⟨hnone, by rw [hrun], hfail⟩

theorem check_ok_iff : check limits c s = .ok () ↔
    (∀ limit, limits.maxInstructions = some limit → c.instructions.length ≤ limit) ∧
      (limits.checkSchemaVersion = true → c.schemaVersion = s.schemaVersion) := by
  unfold check
  cases limits.maxInstructions with
  | none => simp
  | some limit => simp

/-- A changeset rejected as a whole is not said to have failed at an instruction. -/
theorem failure?_of_check {e : ApplyError} (h : check limits c s = .error e) :
    e.failure? = none := by
  simp only [check, Reading.throw_bind] at h
  split at h
  · split at h
    · cases h
      rfl
    · split at h
      · cases h
        rfl
      · cases h
  · split at h
    · cases h
      rfl
    · cases h

theorem check_upTo (h : check limits c s = .ok ()) (m : Nat) :
    check limits (c.upTo m) s = .ok () := by
  obtain ⟨hlen, hversion⟩ := check_ok_iff.mp h
  refine check_ok_iff.mpr ⟨fun limit hl => ?_, hversion⟩
  have hle := hlen limit hl
  simp only [Changeset.upTo, List.length_take]
  omega

end Replay

def Store.trail (s : Store) (c : Changeset) : Trail :=
  Replay.run c 0 .none c.instructions ⟨s, []⟩

theorem Store.apply_of_check {s : Store} {limits : Limits} {c : Changeset}
    (h : Replay.check limits c s = .ok ()) :
    s.apply limits c = ⟨(s.trail c).progress.store, (s.trail c).events,
      (s.trail c).failure.map .instruction⟩ := by
  simp only [apply, h, trail]

theorem Store.trail_upTo (s : Store) (c : Changeset) (n : Nat) :
    s.trail (c.upTo n) = Replay.run c 0 .none (c.instructions.take n) ⟨s, []⟩ := by
  simp only [trail, Replay.run_upTo]
  rfl

/-- What a changeset that stopped at an instruction has come to. -/
structure Store.StoppedAt (s : Store) (limits : Limits) (c : Changeset) (f : Failure) : Prop where
  index_lt : f.index < c.instructions.length
  kind : c.instructions[f.index].kind = f.kind
  before_succeeds : (s.apply limits (c.upTo f.index)).error = none
  store : (s.apply limits c).store = (s.apply limits (c.upTo f.index)).store
  events : (s.apply limits c).events = (s.apply limits (c.upTo f.index)).events
  numbered : (s.apply limits c).events.map (·.index) = List.range f.index
  before_store : (s.trail (c.upTo f.index)).progress.store = (s.apply limits c).store
  /-- The instruction fails where the run over those before it has come to. -/
  fails :
    let before := s.trail (c.upTo f.index)
    Step.dispatch c before.selection c.instructions[f.index] before.progress =
      .error f.cause before.progress

theorem Store.stoppedAt_of_failure {s : Store} {limits : Limits} {c : Changeset} {f : Failure}
    (hcheck : Replay.check limits c s = .ok ()) (h : (s.trail c).failure = some f) :
    s.StoppedAt limits c f := by
  obtain ⟨j, i, hi, hindex, hkind, hnone, hrun, hfail⟩ := Replay.run_failure h
  obtain rfl : f.index = j := by omega
  obtain ⟨hlt, rfl⟩ := List.getElem?_eq_some_iff.mp hi
  have hbefore := s.trail_upTo c f.index
  have hall := apply_of_check hcheck
  have hcut := apply_of_check (Replay.check_upTo hcheck f.index)
  have hevents := Replay.run_events hnone
  rw [← hbefore] at hnone hrun hfail hevents
  change s.trail c = _ at hrun
  simp only [hrun] at hall
  refine ⟨hlt, hkind.symm, by rw [hcut, hnone]; rfl, by rw [hall, hcut], by rw [hall, hcut], ?_,
    by rw [hall], hfail⟩
  have hindices := congrArg (List.map Prod.snd) hevents
  simpa [hall, Function.comp_def, List.zipIdx_map_snd, List.range_eq_range',
    Nat.min_eq_left (Nat.le_of_lt hlt)] using hindices

/-- The outcome of a changeset. If an instruction fails, the store and the events are those of the
changeset cut off before it; if none fails, there is one event for each in order; if the changeset
is rejected as a whole, nothing has happened. -/
theorem apply_outcome (s : Store) (limits : Limits) (c : Changeset) :
    (∀ f, (s.apply limits c).error = some (.instruction f) → s.StoppedAt limits c f) ∧
    ((s.apply limits c).error = none →
      (s.apply limits c).events.map (fun e => (e.kind, e.index)) =
        (c.instructions.map (·.kind)).zipIdx) ∧
    ((∃ limit actual, (s.apply limits c).error = some (.tooManyInstructions limit actual)) ∨
        (∃ expected actual, (s.apply limits c).error =
          some (.schemaVersionMismatch expected actual)) →
      (s.apply limits c).store = s ∧ (s.apply limits c).events = []) := by
  cases hcheck : Replay.check limits c s with
  | error e =>
    have happly : s.apply limits c = ⟨s, [], some e⟩ := by simp only [Store.apply, hcheck]
    refine ⟨fun f hf => ?_, fun hf => ?_, fun _ => ?_⟩
    · simp only [happly, Option.some.injEq] at hf
      subst hf
      cases Replay.failure?_of_check hcheck
    · simp [happly] at hf
    · simp [happly]
  | ok u =>
    have happly := Store.apply_of_check hcheck
    refine ⟨fun f hf => ?_, fun hf => ?_, fun he => ?_⟩
    · simp only [happly, Option.map_eq_some_iff, ApplyError.instruction.injEq] at hf
      obtain ⟨_, hf, rfl⟩ := hf
      exact Store.stoppedAt_of_failure hcheck hf
    · simp only [happly, Option.map_eq_none_iff] at hf
      rw [happly]
      exact Replay.run_events hf
    · simp [happly] at he

def Changeset.twins : Changeset :=
  ⟨1, ["people", "id"], "", [.addTable ⟨0⟩ (some ⟨⟨1⟩, .int, false⟩), .selectTable ⟨0⟩,
    .createObject (some (.int 7)), .createObject (some (.int 7))]⟩

theorem apply_outcome_twins :
    (Store.new 1).StoppedAt .standard .twins ⟨3, .createObject, .objectExists "people" "7"⟩ ∧
    ((Store.new 1).apply .standard (.upTo .twins 3)).events.map (fun e => (e.kind, e.index)) =
      [(.addTable, 0), (.selectTable, 1), (.createObject, 2)] ∧
    ((Store.new 1).apply ⟨some 3, true⟩ .twins).store = .new 1 := by
  refine ⟨(apply_outcome _ _ _).1 _ (by rfl), (apply_outcome _ _ _).2.1 (by rfl),
    ((apply_outcome _ _ _).2.2 (.inl ⟨3, 4, by rfl⟩)).1⟩

end ChangesetReplay
