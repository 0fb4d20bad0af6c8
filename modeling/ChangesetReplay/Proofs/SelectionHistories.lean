import ChangesetReplay.Proofs.IssuedKeys
import ChangesetReplay.Proofs.SelectionValidity

/-! # Histories of selections and erasures

A run that goes on after failures is told as the list of its attempts. What an attempt erased is
read off the store before and after it, what it selected off its instruction. The law of one attempt
is `Attempt.outcome`: it selects, or the selection gives up what the attempt erased. -/

namespace ChangesetReplay

def Loss.key? : Loss → Option Key
  | nothing => none
  | table k => some (.table k)
  | column k c => some (.column k c)
  | object k j => some (.object k j)

namespace Store
variable {s s' : Store} {x : Key} {f : Denotation}

theorem denotation?_table {k : TableKey} :
    s.denotation? (.table k) = some f ↔
      ∃ t, s.tables[k]? = some t ∧ .table t.name t.keyDef = f := Option.map_eq_some_iff

/-- What a store came to lack was taken away, by itself or along with its table. -/
theorem Keeps.key?_eq {loss : Loss} (h : s.Keeps loss s') (hx : s.denotation? x = some f)
    (hgone : s'.denotation? x = none) :
    loss.key? = some x ∨ loss.key? = some (.table x.owner) := by
  have hkept : ∀ {g}, s'.denotation? x ≠ some g := fun hg => by cases hgone.symm.trans hg
  cases x with
  | table k =>
    obtain ⟨t, ht, -⟩ := denotation?_table.mp hx
    by_cases hloss : loss = .table k
    · exact .inl (hloss ▸ rfl)
    · obtain ⟨u, hu, -⟩ := h.table k t ht hloss
      exact absurd (denotation?_table.mpr ⟨u, hu, rfl⟩) hkept
  | column k c =>
    obtain ⟨t, d, ht, hd, -⟩ := denotation?_column.mp hx
    by_cases hloss : loss = .table k
    · exact .inr (hloss ▸ rfl)
    · obtain ⟨u, hu, hkeeps⟩ := h.table k t ht hloss
      by_cases hcolumn : loss = .column k c
      · exact .inl (hcolumn ▸ rfl)
      · exact absurd (denotation?_column.mpr ⟨u, d, hu, hkeeps.column c d hd hcolumn, rfl⟩) hkept
  | object k j =>
    obtain ⟨t, o, ht, ho, -⟩ := denotation?_object.mp hx
    by_cases hloss : loss = .table k
    · exact .inr (hloss ▸ rfl)
    · obtain ⟨u, hu, hkeeps⟩ := h.table k t ht hloss
      by_cases hobject : loss = .object k j
      · exact .inl (hobject ▸ rfl)
      · obtain ⟨o', ho', -⟩ := hkeeps.object j o ho hobject
        exact absurd (denotation?_object.mpr ⟨u, o', hu, ho', rfl⟩) hkept

/-- What a successful call takes away was there, and is there no more. -/
theorem Call.erased_of_key? {call : Call} {a : Answer} (h : call.run s = .ok a s')
    (hx : call.loss.key? = some x) : (∃ f, s.denotation? x = some f) ∧ s'.denotation? x = none := by
  cases call with
  | eraseTable k =>
    cases hx
    obtain ⟨_, h, -⟩ := ActionLaws.map_ok_iff.mp h
    obtain ⟨hlinks, rfl⟩ := eraseTable_ok_iff.mp h
    obtain ⟨t, ht, -⟩ := linkOrigins_nil_iff.mp hlinks
    refine ⟨⟨_, denotation?_table.mpr ⟨t, ht, rfl⟩⟩, ?_⟩
    rw [Option.eq_none_iff_forall_ne_some]
    intro g hg
    obtain ⟨u, hu, -⟩ := denotation?_table.mp hg
    exact (FiniteMap.erase_eq_some_iff.mp hu).1 rfl
  | eraseColumn k c =>
    cases hx
    obtain ⟨_, h, -⟩ := ActionLaws.map_ok_iff.mp h
    obtain ⟨t, d, ht, hd, -, rfl⟩ := eraseColumn_ok_iff.mp h
    refine ⟨⟨_, denotation?_column.mpr ⟨t, d, ht, hd, rfl⟩⟩, ?_⟩
    rw [Option.eq_none_iff_forall_ne_some]
    intro g hg
    obtain ⟨u, d', hu, hd', -⟩ := denotation?_column.mp hg
    cases tables_putTable_self.symm.trans hu
    have hmem := (List.mem_filter.mp (Table.columnDef_ok hd')).2
    simp at hmem
  | eraseObject k j =>
    cases hx
    have hkeeps := Call.keeps h
    obtain ⟨_, h, -⟩ := ActionLaws.map_ok_iff.mp h
    obtain ⟨t, ht, hj, -⟩ := eraseObject_ok_iff.mp h
    obtain ⟨o, ho⟩ := FiniteMap.mem_iff_exists.mp hj
    refine ⟨⟨_, denotation?_object.mpr ⟨t, o, ht, ho, rfl⟩⟩, ?_⟩
    rw [Option.eq_none_iff_forall_ne_some]
    intro g hg
    obtain ⟨u, o', hu, ho', -⟩ := denotation?_object.mp hg
    exact hkeeps.gone ⟨k, j⟩ ⟨rfl, rfl⟩ ⟨u, hu, FiniteMap.mem_iff_exists.mpr ⟨o', ho'⟩⟩
  | _ => cases hx

end Store

/-- What an instruction selects: a table, or a list of an object of the table selected before. -/
inductive Choice where
  | table (k : TableKey)
  | list (l : Container)
deriving DecidableEq

namespace Choice
variable {x : Choice} {loss : Loss}

def owner : Choice → TableKey
  | table k => k
  | list l => l.table

/-- The keys of what has to be there for as long as the choice is to be used. -/
def keys : Choice → List Key
  | table k => [.table k]
  | list l => [.table l.table, .column l.table l.column, .object l.table l.object]

def selection : Choice → Selection
  | table k => .table k
  | list ⟨k, o, c, none⟩ => .field k o c
  | list ⟨k, o, c, some target⟩ => .linkList k o c target

theorem owner_mem_keys (x : Choice) : .table x.owner ∈ x.keys := by
  cases x <;> simp [keys, owner]

theorem owner_of_mem_keys {key : Key} (h : key ∈ x.keys) : key.owner = x.owner := by
  cases x with
  | table k =>
    cases List.mem_singleton.mp h
    rfl
  | list l =>
    simp only [keys, List.mem_cons, List.not_mem_nil, or_false] at h
    rcases h with rfl | rfl | rfl <;> rfl

theorem container_list (l : Container) : (list l).selection.container = .ok l := by
  obtain ⟨k, o, c, target⟩ := l
  cases target <;> rfl

theorem eq_list_of_container {l : Container} (h : x.selection.container = .ok l) : x = list l := by
  cases x with
  | table k => cases h
  | list l' =>
    cases (container_list l').symm.trans h
    rfl

theorem eq_table_of_container (h : x.selection.container = .error .noContainerSelected) :
    ∃ k, x = table k := by
  cases x with
  | table k => exact ⟨k, rfl⟩
  | list l => cases (container_list l).symm.trans h

theorem container_ne_stale (x : Choice) : x.selection.container ≠ .error .staleSelection := by
  intro h
  cases x with
  | table k => cases h
  | list l => cases (container_list l).symm.trans h

theorem selectedTable_selection (x : Choice) : x.selection.selectedTable = .ok x.owner := by
  cases x with
  | table k => rfl
  | list l => exact Selection.selectedTable_of_container (container_list l)

end Choice

/-- What a selecting instruction selects, once its name and its reference are resolved. -/
inductive Step.Selects (c : Changeset) (sel : Selection) (p : Progress) :
    Instruction → Choice → Prop where
  | table {id : NameId} {k : TableKey} (found : c.table p.store id = .ok k) :
      Selects c sel p (.selectTable id) (.table k)
  | list {ref : ObjectRef} {id : NameId} {k : TableKey} {column : Column} {o : ObjectKey}
      (selected : sel.selectedTable = .ok k) (member : c.column p.store k id = .ok column)
      (list : column.definition.isList = true) (plain : column.definition.isLinkList = false)
      (found : c.object p.store p.created k ref = .ok o) :
      Selects c sel p (.selectField ref id) (.list ⟨k, o, column.key, none⟩)
  | linkList {ref : ObjectRef} {id : NameId} {k target : TableKey} {column : Column}
      {o : ObjectKey} {name : String} (selected : sel.selectedTable = .ok k)
      (member : c.column p.store k id = .ok column) (list : column.definition.isLinkList = true)
      (linked : column.definition.linkTarget = some name)
      (targetFound : p.store.findTable name = some target)
      (found : c.object p.store p.created k ref = .ok o) :
      Selects c sel p (.selectLinkList ref id) (.list ⟨k, o, column.key, some target⟩)

namespace Step
variable {c : Changeset} {sel sel' : Selection} {p p' : Progress} {i : Instruction} {e : Effect}
  {x y : Choice}

theorem Selects.isSelection (h : Selects c sel p i x) : i.isSelection = true := by
  cases h <;> rfl

theorem Selects.unique (hx : Selects c sel p i x) (hy : Selects c sel p i y) : x = y := by
  cases hx with
  | table found =>
    cases hy with
    | table found' =>
      cases found.symm.trans found'
      rfl
  | list selected member list plain found =>
    cases hy with
    | list selected' member' list' plain' found' =>
      cases selected.symm.trans selected'
      cases member.symm.trans member'
      cases found.symm.trans found'
      rfl
  | linkList selected member list linked targetFound found =>
    cases hy with
    | linkList selected' member' list' linked' targetFound' found' =>
      cases selected.symm.trans selected'
      cases member.symm.trans member'
      cases found.symm.trans found'
      cases linked.symm.trans linked'
      cases targetFound.symm.trans targetFound'
      rfl

theorem Outcome.selects (h : Outcome c sel p i sel' e p') (hi : i.isSelection = true) :
    ∃ x, Selects c sel p i x ∧ sel' = x.selection := by
  cases h with
  | selectTable selected table label =>
    obtain ⟨k, hk, rfl⟩ := Selection.selectTable_ok_iff.mp selected
    exact ⟨_, .table hk, rfl⟩
  | selectField selected list label member =>
    obtain ⟨k, column, o, hk, hcolumn, hlist, hplain, ho, rfl⟩ := Selection.selectField_ok selected
    exact ⟨_, .list hk hcolumn hlist hplain ho, rfl⟩
  | selectLinkList selected list linked label member targetLabel =>
    obtain ⟨k, column, o, name, target, hk, hcolumn, hlist, hlink, hfound, ho, rfl⟩ :=
      Selection.selectLinkList_ok selected
    exact ⟨_, .linkList hk hcolumn hlist hlink hfound ho, rfl⟩
  | _ => cases hi

end Step

/-- An instruction of a run that goes on after failures, and what it was met with. -/
structure Attempt where
  selection : Selection
  progress : Progress
  instruction : Instruction

namespace Attempt

def Selects (c : Changeset) (a : Attempt) (x : Choice) : Prop :=
  Step.Selects c a.selection a.progress a.instruction x ∧
    ∃ r p, Step.dispatch c a.selection a.instruction a.progress = .ok r p

/-- Something stood under the key before the instruction, and nothing after it. -/
def Erases (c : Changeset) (a : Attempt) (key : Key) : Prop :=
  (∃ f, a.progress.store.denotation? key = some f) ∧
    (Replay.attempt c a.selection a.instruction a.progress).2.2.store.denotation? key = none

end Attempt

def ErasedIn (c : Changeset) (attempts : List Attempt) (key : Key) : Prop :=
  ∃ a ∈ attempts, a.Erases c key

/-- The choice `x` was made last in a history, before the attempts `since`. -/
structure Latest (c : Changeset) (history : List Attempt) (x : Choice) (since : List Attempt) :
    Prop where
  split : ∃ earlier a, history = earlier ++ a :: since ∧ a.Selects c x
  last : ∀ a ∈ since, ∀ y, ¬a.Selects c y

namespace Replay

def attempts (c : Changeset) (sel : Selection) (p : Progress) : List Instruction → List Attempt
  | [] => []
  | i :: rest => ⟨sel, p, i⟩ :: attempts c (attempt c sel i p).2.1 (attempt c sel i p).2.2 rest

end Replay

namespace Attempt
variable {c : Changeset} {a : Attempt} {x y : Choice} {key : Key}

theorem Selects.unique (hx : a.Selects c x) (hy : a.Selects c y) : x = y := hx.1.unique hy.1

/-- An attempt selects, or it takes something away or nothing, and the selection gives that up. -/
theorem outcome (c : Changeset) (a : Attempt) :
    (∃ x, a.Selects c x ∧
      (Replay.attempt c a.selection a.instruction a.progress).2.1 = x.selection) ∨
    ∃ loss : Loss, (∀ x, ¬a.Selects c x) ∧ (∀ key, loss.key? = some key → a.Erases c key) ∧
      (∀ key, a.Erases c key → loss.key? = some key ∨ loss.key? = some (.table key.owner)) ∧
      (Replay.attempt c a.selection a.instruction a.progress).2.1 = a.selection.after loss := by
  obtain ⟨sel, p, i⟩ := a
  cases hstep : Step.dispatch c sel i p with
  | error cause p' =>
    cases Step.dispatch_atomic c sel i p cause p' hstep
    refine .inr ⟨.nothing, ?_, fun _ hkey => (by cases hkey), ?_, ?_⟩
    · rintro x ⟨-, r, p', hok⟩
      cases hstep.symm.trans hok
    · rintro key ⟨⟨f, hf⟩, hgone⟩
      simp only [Replay.attempt, hstep] at hgone
      cases hf.symm.trans hgone
    · simp only [Replay.attempt, hstep]
      rfl
  | ok r p' =>
    obtain ⟨sel', e⟩ := r
    have h := Step.dispatch_outcome hstep
    -- A step selects and leaves the store alone, or makes one call, whose loss is all there is.
    by_cases hi : i.isSelection = true
    · obtain ⟨x, hx, rfl⟩ := h.selects hi
      exact .inl ⟨x, ⟨hx, _, p', hstep⟩, by simp only [Replay.attempt, hstep]⟩
    · rcases h.call with ⟨hi', -⟩ | ⟨call, b, hcall⟩
      · exact absurd hi' hi
      · have hkeeps := Store.Call.keeps hcall.run
        refine .inr ⟨call.loss, fun x hx => hi hx.1.isSelection, fun key hkey => ?_,
          fun key hkey => ?_, by simpa only [Replay.attempt, hstep] using hcall.selection⟩
        · obtain ⟨hbefore, hafter⟩ := Store.Call.erased_of_key? hcall.run hkey
          exact ⟨hbefore, by simpa only [Replay.attempt, hstep] using hafter⟩
        · obtain ⟨⟨f, hf⟩, hgone⟩ := hkey
          simp only [Replay.attempt, hstep] at hgone
          exact hkeeps.key?_eq hf hgone

end Attempt

theorem erasedIn_append {c : Changeset} {a : Attempt} {l : List Attempt} {key : Key} :
    ErasedIn c (l ++ [a]) key ↔ ErasedIn c l key ∨ a.Erases c key := by
  simp [ErasedIn, or_and_right, exists_or]

/-- Split at the last element with a property, a list splits in one way. -/
theorem eq_of_last {α : Type} {P : α → Prop} {l l' r r' : List α} {a b : α}
    (h : l ++ a :: r = l' ++ b :: r') (ha : P a) (hb : P b) (hr : ∀ d ∈ r, ¬P d)
    (hr' : ∀ d ∈ r', ¬P d) : a = b ∧ r = r' := by
  rcases List.append_eq_append_iff.mp h with ⟨m, -, hm⟩ | ⟨m, -, hm⟩
  · cases m with
    | nil => exact List.cons.inj hm
    | cons d m =>
      obtain ⟨-, rfl⟩ := List.cons.inj hm
      exact absurd hb (hr b (by simp))
  · cases m with
    | nil =>
      obtain ⟨rfl, rfl⟩ := List.cons.inj hm
      exact ⟨rfl, rfl⟩
    | cons d m =>
      obtain ⟨-, rfl⟩ := List.cons.inj hm
      exact absurd ha (hr' a (by simp))

namespace Latest
variable {c : Changeset} {history since more : List Attempt} {x y : Choice}

theorem append (h : Latest c history x since) (hmore : ∀ a ∈ more, ∀ y, ¬a.Selects c y) :
    Latest c (history ++ more) x (since ++ more) := by
  obtain ⟨earlier, a, rfl, hselects⟩ := h.split
  refine ⟨⟨earlier, a, by simp, hselects⟩, fun b hb => ?_⟩
  rcases List.mem_append.mp hb with hb | hb
  · exact h.last b hb
  · exact hmore b hb

theorem unique {since' : List Attempt} (h : Latest c history x since)
    (h' : Latest c history y since') : x = y ∧ since = since' := by
  obtain ⟨earlier, a, heq, ha⟩ := h.split
  obtain ⟨earlier', b, heq', hb⟩ := h'.split
  have hsame : a = b ∧ since = since' :=
    eq_of_last (P := fun a => ∃ y, a.Selects c y) (heq.symm.trans heq') ⟨x, ha⟩ ⟨y, hb⟩
      (fun d hd ⟨z, hz⟩ => h.last d hd z hz) fun d hd ⟨z, hz⟩ => h'.last d hd z hz
  obtain ⟨rfl, rfl⟩ := hsame
  exact ⟨ha.unique hb, rfl⟩

theorem not_of_never (never : ∀ a ∈ history, ∀ x, ¬a.Selects c x) : ¬Latest c history x since := by
  intro h
  obtain ⟨earlier, a, rfl, hx⟩ := h.split
  exact never a (by simp) x hx

end Latest

end ChangesetReplay
