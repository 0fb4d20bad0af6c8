import ChangesetReplay.Proofs.CallLosses
import ChangesetReplay.Proofs.FailureAtomicity
import ChangesetReplay.Replay.Run

/-! # Reachable stores

What a store can come to by calls and steps, with any arguments and under any selections, successful
or not, as long as no counter is used up. A successful step makes at most one call of the store, so
every such run is a sequence of changes, and what changes preserve holds throughout. -/

namespace ChangesetReplay

namespace Step
variable {c : Changeset} {sel sel' : Selection} {p p' : Progress} {i : Instruction} {e : Effect}

/-- When it succeeds, the instruction erases the object, by itself or along with its table. -/
def Erases (c : Changeset) (sel : Selection) (p : Progress) (x : Handle) : Instruction → Prop
  | .eraseTable id => c.table p.store id = .ok x.table
  | .eraseObject ref =>
    sel.selectedTable = .ok x.table ∧ c.object p.store p.created x.table ref = .ok x.object
  | _ => False

theorem not_erases_of_isSelection {x : Handle} (h : i.isSelection = true) :
    ¬Erases c sel p x i := by
  cases i with
  | selectTable table => exact id
  | selectField ref field => exact id
  | selectLinkList ref field => exact id
  | _ => cases h

/-- A step that was taken by one successful call, after which the selection has given up what the
call took away. -/
structure ByCall (c : Changeset) (sel : Selection) (p : Progress) (i : Instruction)
    (sel' : Selection) (p' : Progress) (call : Store.Call) (a : Store.Answer) : Prop where
  run : call.run p.store = .ok a p'.store
  selection : sel' = sel.after call.loss
  takes_iff : ∀ x, call.loss.Takes x ↔ Erases c sel p x i

/-- A call that takes nothing away, for an instruction that erases nothing. -/
theorem ByCall.of_nothing {call : Store.Call} {a : Store.Answer}
    (run : call.run p.store = .ok a p'.store) (hloss : call.loss = .nothing)
    (hi : ∀ x, ¬Erases c sel p x i) : ByCall c sel p i sel p' call a where
  run := run
  selection := by rw [hloss, Selection.after]
  takes_iff x := by
    rw [hloss]
    exact ⟨False.elim, hi x⟩

/-- A successful step only selects, or it makes one successful call. -/
theorem Outcome.call (h : Outcome c sel p i sel' e p') :
    i.isSelection = true ∧ p' = p ∨ ∃ call a, ByCall c sel p i sel' p' call a := by
  have hnothing : ∀ {α : Type} {act : Store.Action α} {x : α} {s : Store} {created : List Handle}
      (call : Store.Call) (answer : α → Store.Answer), act p.store = .ok x s →
      call.run = answer <$> act → call.loss = .nothing → (∀ x, ¬Erases c sel p x i) →
      ∃ call a, ByCall c sel p i sel ⟨s, created⟩ call a := by
    intro α act x s created call answer done hcall hloss hi
    have hrun : call.run p.store = .ok (answer x) s :=
      hcall ▸ ActionLaws.map_ok_iff.mpr ⟨x, done, rfl⟩
    exact ⟨call, _, .of_nothing hrun hloss hi⟩
  cases h with
  | addTable named keyed done =>
    exact .inr (hnothing (.addTable _ _) .table done rfl rfl fun _ => id)
  | @eraseTable id t name s found label done =>
    refine .inr ⟨.eraseTable t, .done, ActionLaws.map_ok_iff.mpr ⟨_, done, rfl⟩, rfl, fun x => ?_⟩
    show t = x.table ↔ c.table p.store id = .ok x.table
    rw [found, Except.ok.injEq]
  | addColumn defined found label done =>
    exact .inr (hnothing (.addColumn _ _) .column done rfl rfl fun _ => id)
  | @eraseColumn id field t column name s found member label done =>
    exact .inr ⟨.eraseColumn t column.key, .done, ActionLaws.map_ok_iff.mpr ⟨_, done, rfl⟩, rfl,
      fun _ => Iff.rfl⟩
  | selectTable selected table label => exact .inl ⟨rfl, rfl⟩
  | selectField selected list label member => exact .inl ⟨rfl, rfl⟩
  | selectLinkList selected list linked label member targetLabel => exact .inl ⟨rfl, rfl⟩
  | createObject selected keyed label done =>
    exact .inr (hnothing (.createObject _ _) .object done rfl rfl fun _ => id)
  | @eraseObject ref t o name s selected found label done =>
    refine .inr ⟨.eraseObject t o, .done, ActionLaws.map_ok_iff.mpr ⟨_, done, rfl⟩, rfl, fun x => ?_⟩
    show t = x.table ∧ o = x.object ↔
      sel.selectedTable = .ok x.table ∧ c.object p.store p.created x.table ref = .ok x.object
    rw [selected, Except.ok.injEq]
    constructor
    · rintro ⟨rfl, rfl⟩
      exact ⟨rfl, found⟩
    · rintro ⟨rfl, hobject⟩
      rw [found, Except.ok.injEq] at hobject
      exact ⟨rfl, hobject⟩
  | set place linked resolved label done =>
    exact .inr (hnothing (.setScalar _ _) (fun _ => .done) done rfl rfl fun _ => id)
  | addInteger place type label done =>
    exact .inr (hnothing (.addInt _ _) .sum done rfl rfl fun _ => id)
  | listInsert list resolved label done =>
    exact .inr (hnothing (.listInsert _ _ _) (fun _ => .done) done rfl rfl fun _ => id)
  | listSet list resolved label done =>
    exact .inr (hnothing (.listSet _ _ _) (fun _ => .done) done rfl rfl fun _ => id)
  | listErase list label done =>
    exact .inr (hnothing (.listErase _ _) (fun _ => .done) done rfl rfl fun _ => id)
  | listMove list label done =>
    exact .inr (hnothing (.listMove _ _ _) (fun _ => .done) done rfl rfl fun _ => id)
  | listSwap list label done =>
    exact .inr (hnothing (.listSwap _ _ _) (fun _ => .done) done rfl rfl fun _ => id)
  | listClear list length label done =>
    exact .inr (hnothing (.listClear _) (fun _ => .done) done rfl rfl fun _ => id)

def Erased (c : Changeset) (sel : Selection) (i : Instruction) (p : Progress) (x : Handle) : Prop :=
  Erases c sel p x i ∧ ∃ r p', dispatch c sel i p = .ok r p'

end Step

/-- What can be done to a store: a call, or a step under some selection and with some objects taken
to have been created before. -/
inductive Operation where
  | call (made : Store.Call)
  | dispatch (c : Changeset) (sel : Selection) (created : List Handle) (i : Instruction)

def Operation.after (s : Store) : Operation → Store
  | .call made =>
    match made.run s with
    | .ok _ s' => s'
    | .error _ s' => s'
  | .dispatch c sel created i =>
    match Step.dispatch c sel i ⟨s, created⟩ with
    | .ok _ p => p.store
    | .error _ p => p.store

def Operation.afterAll (s : Store) (ops : List Operation) : Store :=
  ops.foldl (fun s op => op.after s) s

def Operation.Erases (s : Store) (x : Handle) : Operation → Prop
  | .call made => made.loss.Takes x ∧ ∃ a s', made.run s = .ok a s'
  | .dispatch c sel created i => Step.Erased c sel i ⟨s, created⟩ x

/-- An operation that fails, or that only selects, changes nothing. Any other makes one call. -/
theorem Operation.after_cases (s : Store) (op : Operation) :
    (op.after s = s ∧ ∀ x, ¬op.Erases s x) ∨
      ∃ (call : Store.Call) (a : Store.Answer), call.run s = .ok a (op.after s) ∧
        ∀ x, call.loss.Takes x ↔ op.Erases s x := by
  cases op with
  | call made =>
    cases hrun : made.run s with
    | error e s' =>
      have hsame := made.run_atomic s e s' hrun
      refine .inl ⟨by simp only [after, hrun, hsame], ?_⟩
      rintro x ⟨-, a, s', hok⟩
      cases hrun.symm.trans hok
    | ok a s' =>
      refine .inr ⟨made, a, by simp only [after, hrun], fun x => ?_⟩
      exact ⟨fun htakes => ⟨htakes, a, s', hrun⟩, fun herases => herases.1⟩
  | dispatch c sel created i =>
    cases hstep : Step.dispatch c sel i ⟨s, created⟩ with
    | error e p =>
      have hsame := Step.dispatch_atomic c sel i _ e p hstep
      refine .inl ⟨by simp only [after, hstep, hsame], ?_⟩
      rintro x ⟨-, r, p', hok⟩
      cases hstep.symm.trans hok
    | ok r p =>
      obtain ⟨sel', e⟩ := r
      have hafter : after s (.dispatch c sel created i) = p.store := by simp only [after, hstep]
      rw [hafter]
      rcases (Step.dispatch_outcome hstep).call with ⟨hselects, rfl⟩ | ⟨call, a, hcall⟩
      · refine .inl ⟨rfl, ?_⟩
        rintro x ⟨herases, -⟩
        exact Step.not_erases_of_isSelection hselects herases
      · refine .inr ⟨call, a, hcall.run, fun x => (hcall.takes_iff x).trans ?_⟩
        exact ⟨fun herases => ⟨herases, _, p, hstep⟩, fun herased => herased.1⟩

theorem Operation.change (s : Store) (op : Operation) : op.after s = s ∨ s.Change (op.after s) := by
  rcases op.after_cases s with ⟨hsame, -⟩ | ⟨call, a, hrun, -⟩
  · exact .inl hsame
  · exact .inr (Store.Call.change hrun)

/-- An operation takes away what it erases, and leaves all else. -/
theorem Operation.keeps (s : Store) (op : Operation) :
    ∃ loss, s.Keeps loss (op.after s) ∧ ∀ x, loss.Takes x ↔ op.Erases s x := by
  rcases op.after_cases s with ⟨hsame, hnone⟩ | ⟨call, a, hrun, htakes⟩
  · rw [hsame]
    exact ⟨.nothing, .refl, fun x => ⟨False.elim, hnone x⟩⟩
  · exact ⟨call.loss, Store.Call.keeps hrun, htakes⟩

namespace Store
variable {s s' : Store}

/-- The stores that a store can come to while its counters have room. -/
inductive Reaches (start : Store) : Store → Prop where
  | refl : Reaches start start
  | step {s : Store} (op : Operation) (h : Reaches start s) (room : s.HasRoom) :
      Reaches start (op.after s)

def Reachable (v : SchemaVersion) (s : Store) : Prop := (new v).Reaches s

/-- What every change preserves holds of all stores that are come to. -/
theorem Reaches.invariant {P : Store → Prop} (h : s.Reaches s') (hstart : P s)
    (hstep : ∀ {s s' : Store}, P s → s.HasRoom → s.Change s' → P s') : P s' := by
  induction h with
  | refl => exact hstart
  | step op h room ih =>
    rcases op.change _ with hsame | hchange
    · rwa [hsame]
    · exact hstep ih room hchange

theorem new_sound (v : SchemaVersion) : (new v).Sound := by
  constructor <;> simp [new]

theorem Reachable.sound {v : SchemaVersion} (h : Reachable v s) : s.Sound :=
  Reaches.invariant h (new_sound v) fun hs room hchange => hchange.sound hs room

theorem Reaches.afterAll {start : Store} (h : start.Reaches s) (ops : List Operation)
    (hroom : ∀ n < ops.length, (Operation.afterAll s (ops.take n)).HasRoom) :
    start.Reaches (Operation.afterAll s ops) := by
  induction ops generalizing s with
  | nil => exact h
  | cons op rest ih =>
    refine ih (h.step op (hroom 0 (by simp))) fun n hn => ?_
    exact hroom (n + 1) (by simpa using hn)

/-- What a run over instructions comes to, as long as there is room before each of them. -/
theorem Reaches.run {start : Store} {c : Changeset} {n : Nat} {sel : Selection}
    {l : List Instruction} {p : Progress} (h : start.Reaches p.store)
    (hroom : ∀ m < l.length, (Replay.run c n sel (l.take m) p).progress.store.HasRoom) :
    start.Reaches (Replay.run c n sel l p).progress.store := by
  induction l generalizing n sel p with
  | nil => exact h
  | cons i rest ih =>
    have hafter := h.step (.dispatch c sel p.created i) (hroom 0 (by simp))
    cases hstep : Step.dispatch c sel i p with
    | error cause p' => simpa only [Replay.run, Operation.after, hstep] using hafter
    | ok r p' =>
      simp only [Operation.after, hstep] at hafter
      simp only [Replay.run, hstep]
      refine ih hafter fun m hm => ?_
      simpa only [List.take_succ_cons, Replay.run, hstep] using hroom (m + 1) (by simpa using hm)

/-- A reachable store is exported as a snapshot that can be imported: names and keys are unique,
keys are below their counters, and all tables are consistent. -/
theorem reachable_export_valid {v : SchemaVersion} (h : Reachable v s) :
    s.exportState.validate = .ok () ∧ (s.exportState.tables.map (·.name)).Nodup ∧
      (∀ t ∈ s.exportState.tables, t.key.index < s.nextTable) ∧
      ∀ (k : TableKey) (t : Table), s.tables[k]? = some t → t.key = k ∧ t.Consistent := by
  have hs := h.sound
  have hexport := hs.export_consistent
  exact ⟨Snapshot.validate_ok_iff.mpr hexport, hexport.names_nodup, hexport.key_lt,
    fun k t ht => ⟨hs.key_eq k t ht, (hs.table k t ht).consistent⟩⟩

/-- Calls and steps, the last of which fails, that make a team with one member, who was in it
before. -/
def teamOperations : List Operation :=
  [.call (.addTable "teams" none),
    .call (.addTable "people" (some ⟨"id", .int, false⟩)),
    .call (.addColumn ⟨1⟩ (.linkTo "team" "teams")),
    .call (.addColumn ⟨1⟩ (.linksTo "former" "teams")),
    .call (.createObject ⟨0⟩ none),
    .dispatch (.new 1) (.table ⟨1⟩) [] (.createObject (some (.int 7))),
    .call (.setScalar ⟨⟨1⟩, ⟨0⟩, ⟨1⟩⟩ (.link ⟨0⟩)),
    .call (.listInsert ⟨⟨1⟩, ⟨0⟩, ⟨2⟩⟩ 0 (.link ⟨0⟩)),
    .dispatch (.new 1) .stale [⟨⟨9⟩, ⟨9⟩⟩] (.eraseObject (.created 0))]

def teamStore : Store := Operation.afterAll (.new 1) teamOperations

theorem teamStore_reachable : Reachable 1 teamStore :=
  Reaches.refl.afterAll teamOperations (by decide)

theorem reachable_export_valid_team :
    Reachable 1 teamStore ∧ teamStore.exportState.validate = .ok () ∧
      (teamStore.scalar ⟨⟨1⟩, ⟨0⟩, ⟨1⟩⟩ = .ok (.link ⟨0⟩)) :=
  ⟨teamStore_reachable, (reachable_export_valid teamStore_reachable).1, by rfl⟩

end Store
end ChangesetReplay
