import ChangesetReplay.Proofs.SelectionHistories

/-! # Selections go stale exactly

Along a run, the selection is told by its history: by what was selected last, and by what was erased
since. It is stale exactly when the table, the column or the object that it names was erased, and it
stays stale until something is selected again, whatever is added under the same names. Nothing is
asked of the store for this. -/

namespace ChangesetReplay

/-- What becomes of a choice when something is taken away. -/
theorem Choice.selection_after_cases (x : Choice) (loss : Loss) :
    (loss.key? = some (.table x.owner) ∧ x.selection.after loss = .stale) ∨
    (∃ l, x = list l ∧ loss.key? ≠ some (.table l.table) ∧ (∃ key ∈ x.keys, loss.key? = some key) ∧
      x.selection.after loss = .staleContainer l.table) ∨
    ((∀ key ∈ x.keys, loss.key? ≠ some key) ∧ x.selection.after loss = x.selection) := by
  cases loss with
  | nothing => exact .inr (.inr ⟨fun _ _ => Option.some_ne_none _ ∘ Eq.symm, rfl⟩)
  | table k =>
    simp only [Selection.after, Selection.afterTableErased, selectedTable_selection]
    by_cases hk : x.owner = k
    · exact .inl ⟨hk ▸ rfl, if_pos hk⟩
    · refine .inr (.inr ⟨fun key hkey h => hk ?_, if_neg hk⟩)
      cases h
      exact (owner_of_mem_keys hkey).symm
  | column k c =>
    cases x with
    | table j => exact .inr (.inr ⟨fun key hkey h => by cases h; simp [keys] at hkey, rfl⟩)
    | list l =>
      simp only [Selection.after, Selection.afterColumnErased, container_list]
      by_cases hl : l.table = k ∧ l.column = c
      · obtain ⟨rfl, rfl⟩ := hl
        exact .inr (.inl ⟨l, rfl, by simp [Loss.key?], ⟨_, by simp [keys], rfl⟩, if_pos ⟨rfl, rfl⟩⟩)
      · refine .inr (.inr ⟨fun key hkey h => hl ?_, if_neg hl⟩)
        cases h
        simpa [keys, eq_comm] using hkey
  | object k j =>
    cases x with
    | table i => exact .inr (.inr ⟨fun key hkey h => by cases h; simp [keys] at hkey, rfl⟩)
    | list l =>
      simp only [Selection.after, Selection.afterObjectErased, container_list]
      by_cases hl : l.table = k ∧ l.object = j
      · obtain ⟨rfl, rfl⟩ := hl
        exact .inr (.inl ⟨l, rfl, by simp [Loss.key?], ⟨_, by simp [keys], rfl⟩, if_pos ⟨rfl, rfl⟩⟩)
      · refine .inr (.inr ⟨fun key hkey h => hl ?_, if_neg hl⟩)
        cases h
        simpa [keys, eq_comm] using hkey

namespace Selection

theorem none_after (loss : Loss) : Selection.none.after loss = .none := by
  cases loss <;> rfl

theorem stale_after (loss : Loss) : Selection.stale.after loss = .stale := by
  cases loss <;> rfl

theorem staleContainer_after_cases (k : TableKey) (loss : Loss) :
    (loss.key? = some (.table k) ∧ (staleContainer k).after loss = .stale) ∨
    (loss.key? ≠ some (.table k) ∧ (staleContainer k).after loss = .staleContainer k) := by
  cases loss with
  | table j =>
    by_cases hk : k = j
    · exact .inl ⟨hk ▸ rfl, if_pos hk⟩
    · exact .inr ⟨by simpa [Loss.key?] using Ne.symm hk, if_neg hk⟩
  | _ => exact .inr ⟨by simp [Loss.key?], rfl⟩

end Selection

/-- How a selection stands to a history that has led to it. -/
inductive Stands (c : Changeset) (history : List Attempt) : Selection → Prop where
  | none (never : ∀ a ∈ history, ∀ x, ¬a.Selects c x) : Stands c history .none
  | fresh {x : Choice} {since : List Attempt} (latest : Latest c history x since)
      (spared : ∀ key ∈ x.keys, ¬ErasedIn c since key) : Stands c history x.selection
  | staleList {l : Container} {since : List Attempt} (latest : Latest c history (.list l) since)
      (spared : ¬ErasedIn c since (.table l.table))
      (lost : ∃ key ∈ (Choice.list l).keys, ErasedIn c since key) :
      Stands c history (.staleContainer l.table)
  | stale {x : Choice} {since : List Attempt} (latest : Latest c history x since)
      (lost : ErasedIn c since (.table x.owner)) : Stands c history .stale

namespace Stands
variable {c : Changeset} {history : List Attempt} {sel : Selection}

/-- What one attempt makes of a selection is told by the history that it continues. -/
theorem attempt (h : Stands c history sel) (p : Progress) (i : Instruction) :
    Stands c (history ++ [⟨sel, p, i⟩]) (Replay.attempt c sel i p).2.1 := by
  rcases Attempt.outcome c ⟨sel, p, i⟩ with ⟨x, hx, hsel⟩ | ⟨loss, hnot, herases, hlost, hsel⟩
  · rw [hsel]
    have hlatest : Latest c (history ++ [⟨sel, p, i⟩]) x [] :=
      ⟨⟨history, _, rfl, hx⟩, fun _ hb => by cases hb⟩
    exact .fresh hlatest fun key _ => by simp [ErasedIn]
  · rw [hsel]
    -- The last choice stays the last one, and the history since then is longer by this attempt.
    have hmore : ∀ a ∈ [(⟨sel, p, i⟩ : Attempt)], ∀ y, ¬a.Selects c y := by
      simpa using hnot
    have hkept : ∀ {since : List Attempt} {k : TableKey}, ¬ErasedIn c since (.table k) →
        loss.key? ≠ some (.table k) → ¬ErasedIn c (since ++ [⟨sel, p, i⟩]) (.table k) := by
      intro since k hspared hloss herased
      rcases erasedIn_append.mp herased with herased | herased
      · exact hspared herased
      · rcases hlost _ herased with htable | htable <;> exact hloss htable
    cases h with
    | none never =>
      rw [Selection.none_after]
      refine .none fun a ha => ?_
      rcases List.mem_append.mp ha with ha | ha
      · exact never a ha
      · exact hmore a ha
    | @fresh x since latest spared =>
      have hlatest := latest.append hmore
      rcases x.selection_after_cases loss with
        ⟨htable, hstale⟩ | ⟨l, rfl, htable, ⟨key, hkey, hloss⟩, hstale⟩ | ⟨hkeys, hstays⟩
      · rw [hstale]
        exact .stale hlatest (erasedIn_append.mpr (.inr (herases _ htable)))
      · rw [hstale]
        exact .staleList hlatest (hkept (spared _ (Choice.owner_mem_keys _)) htable)
          ⟨key, hkey, erasedIn_append.mpr (.inr (herases _ hloss))⟩
      · rw [hstays]
        -- A key of the choice can be gone with its table as well, but the table is a key of it too.
        refine .fresh hlatest fun key hkey herased => ?_
        rcases erasedIn_append.mp herased with herased | herased
        · exact spared key hkey herased
        · rcases hlost key herased with hloss | hloss
          · exact hkeys key hkey hloss
          · rw [Choice.owner_of_mem_keys hkey] at hloss
            exact hkeys _ x.owner_mem_keys hloss
    | @staleList l since latest spared lost =>
      have hlatest := latest.append hmore
      rcases Selection.staleContainer_after_cases l.table loss with
        ⟨htable, hstale⟩ | ⟨htable, hstays⟩
      · rw [hstale]
        exact .stale hlatest (erasedIn_append.mpr (.inr (herases _ htable)))
      · rw [hstays]
        obtain ⟨key, hkey, herased⟩ := lost
        exact .staleList hlatest (hkept spared htable)
          ⟨key, hkey, erasedIn_append.mpr (.inl herased)⟩
    | stale latest lost =>
      rw [Selection.stale_after]
      exact .stale (latest.append hmore) (erasedIn_append.mpr (.inl lost))

theorem follow (h : Stands c history sel) (p : Progress) (l : List Instruction) :
    Stands c (history ++ Replay.attempts c sel p l) (Replay.follow c sel p l).1 := by
  induction l generalizing history sel p with
  | nil => simpa [Replay.attempts, Replay.follow] using h
  | cons i rest ih =>
    have hrest := ih (h.attempt p i) (Replay.attempt c sel i p).2.2
    rwa [List.append_assoc] at hrest

variable {x : Choice} {since : List Attempt}

theorem selectedTable_cases (h : Stands c history sel) :
    (sel.selectedTable = .error .noTableSelected ∧ ∀ a ∈ history, ∀ x, ¬a.Selects c x) ∨
    ∃ x since, Latest c history x since ∧
      (sel.selectedTable = .ok x.owner ∧ ¬ErasedIn c since (.table x.owner) ∨
        sel.selectedTable = .error .staleSelection ∧ ErasedIn c since (.table x.owner)) := by
  cases h with
  | none never => exact .inl ⟨rfl, never⟩
  | @fresh x since latest spared =>
    exact .inr ⟨x, since, latest, .inl ⟨x.selectedTable_selection, spared _ x.owner_mem_keys⟩⟩
  | staleList latest spared lost => exact .inr ⟨_, _, latest, .inl ⟨rfl, spared⟩⟩
  | stale latest lost => exact .inr ⟨_, _, latest, .inr ⟨rfl, lost⟩⟩

theorem container_cases (h : Stands c history sel) :
    (sel.container = .error .noContainerSelected ∧ ∀ a ∈ history, ∀ x, ¬a.Selects c x) ∨
    ∃ x since, Latest c history x since ∧
      (sel.container = x.selection.container ∧ (∀ key ∈ x.keys, ¬ErasedIn c since key) ∨
        sel.container = .error .staleSelection ∧ ∃ key ∈ x.keys, ErasedIn c since key) := by
  cases h with
  | none never => exact .inl ⟨rfl, never⟩
  | fresh latest spared => exact .inr ⟨_, _, latest, .inl ⟨rfl, spared⟩⟩
  | staleList latest spared lost => exact .inr ⟨_, _, latest, .inr ⟨rfl, lost⟩⟩
  | @stale x since latest lost =>
    exact .inr ⟨x, since, latest, .inr ⟨rfl, _, x.owner_mem_keys, lost⟩⟩

/-- The selected table is that of the latest choice, as long as that was not erased. -/
theorem selectedTable_of_latest (h : Stands c history sel) (hx : Latest c history x since) :
    sel.selectedTable = .ok x.owner ∧ ¬ErasedIn c since (.table x.owner) ∨
      sel.selectedTable = .error .staleSelection ∧ ErasedIn c since (.table x.owner) := by
  rcases h.selectedTable_cases with ⟨-, never⟩ | ⟨y, since', hy, hcases⟩
  · exact absurd hx (Latest.not_of_never never)
  · obtain ⟨rfl, rfl⟩ := hx.unique hy
    exact hcases

/-- The selected list is that of the latest choice, as long as nothing of it was erased. -/
theorem container_of_latest (h : Stands c history sel) (hx : Latest c history x since) :
    sel.container = x.selection.container ∧ (∀ key ∈ x.keys, ¬ErasedIn c since key) ∨
      sel.container = .error .staleSelection ∧ ∃ key ∈ x.keys, ErasedIn c since key := by
  rcases h.container_cases with ⟨-, never⟩ | ⟨y, since', hy, hcases⟩
  · exact absurd hx (Latest.not_of_never never)
  · obtain ⟨rfl, rfl⟩ := hx.unique hy
    exact hcases

end Stands

structure Selection.Exact (c : Changeset) (history : List Attempt) (sel : Selection) : Prop where
  table : ∀ k, sel.selectedTable = .ok k ↔
    ∃ x since, Latest c history x since ∧ x.owner = k ∧ ¬ErasedIn c since (.table k)
  tableErased : sel.selectedTable = .error .staleSelection ↔
    ∃ x since, Latest c history x since ∧ ErasedIn c since (.table x.owner)
  noTable : sel.selectedTable = .error .noTableSelected ↔ ∀ a ∈ history, ∀ x, ¬a.Selects c x
  list : ∀ l, sel.container = .ok l ↔
    ∃ since, Latest c history (.list l) since ∧
      ∀ key ∈ (Choice.list l).keys, ¬ErasedIn c since key
  listErased : sel.container = .error .staleSelection ↔
    ∃ x since, Latest c history x since ∧ ∃ key ∈ x.keys, ErasedIn c since key
  noList : sel.container = .error .noContainerSelected ↔
    (∀ a ∈ history, ∀ x, ¬a.Selects c x) ∨
      ∃ k since, Latest c history (.table k) since ∧ ¬ErasedIn c since (.table k)

theorem Stands.exact {c : Changeset} {history : List Attempt} {sel : Selection}
    (h : Stands c history sel) : sel.Exact c history where
  table k := by
    constructor
    · intro hk
      rcases h.selectedTable_cases with ⟨heq, -⟩ | ⟨x, since, hx, ⟨heq, hspared⟩ | ⟨heq, -⟩⟩
      all_goals cases heq.symm.trans hk
      exact ⟨x, since, hx, rfl, hspared⟩
    · rintro ⟨x, since, hx, rfl, hspared⟩
      rcases h.selectedTable_of_latest hx with ⟨heq, -⟩ | ⟨-, herased⟩
      · exact heq
      · exact absurd herased hspared
  tableErased := by
    constructor
    · intro hstale
      rcases h.selectedTable_cases with ⟨heq, -⟩ | ⟨x, since, hx, ⟨heq, -⟩ | ⟨-, herased⟩⟩
      · cases heq.symm.trans hstale
      · cases heq.symm.trans hstale
      · exact ⟨x, since, hx, herased⟩
    · rintro ⟨x, since, hx, herased⟩
      rcases h.selectedTable_of_latest hx with ⟨-, hspared⟩ | ⟨heq, -⟩
      · exact absurd herased hspared
      · exact heq
  noTable := by
    constructor
    · intro hnone
      rcases h.selectedTable_cases with ⟨-, never⟩ | ⟨x, since, hx, ⟨heq, -⟩ | ⟨heq, -⟩⟩
      · exact never
      · cases heq.symm.trans hnone
      · cases heq.symm.trans hnone
    · intro never
      rcases h.selectedTable_cases with ⟨heq, -⟩ | ⟨x, since, hx, -⟩
      · exact heq
      · exact absurd hx (Latest.not_of_never never)
  list l := by
    constructor
    · intro hl
      rcases h.container_cases with ⟨heq, -⟩ | ⟨x, since, hx, ⟨heq, hspared⟩ | ⟨heq, -⟩⟩
      · cases heq.symm.trans hl
      · cases Choice.eq_list_of_container (heq.symm.trans hl)
        exact ⟨since, hx, hspared⟩
      · cases heq.symm.trans hl
    · rintro ⟨since, hx, hspared⟩
      rcases h.container_of_latest hx with ⟨heq, -⟩ | ⟨-, key, hkey, herased⟩
      · exact heq.trans (Choice.container_list l)
      · exact absurd herased (hspared key hkey)
  listErased := by
    constructor
    · intro hstale
      rcases h.container_cases with ⟨heq, -⟩ | ⟨x, since, hx, ⟨heq, -⟩ | ⟨-, herased⟩⟩
      · cases heq.symm.trans hstale
      · exact absurd (heq.symm.trans hstale) (Choice.container_ne_stale x)
      · exact ⟨x, since, hx, herased⟩
    · rintro ⟨x, since, hx, key, hkey, herased⟩
      rcases h.container_of_latest hx with ⟨-, hspared⟩ | ⟨heq, -⟩
      · exact absurd herased (hspared key hkey)
      · exact heq
  noList := by
    constructor
    · intro hnone
      rcases h.container_cases with ⟨-, never⟩ | ⟨x, since, hx, ⟨heq, hspared⟩ | ⟨heq, -⟩⟩
      · exact .inl never
      · obtain ⟨k, rfl⟩ := Choice.eq_table_of_container (heq.symm.trans hnone)
        exact .inr ⟨k, since, hx, hspared _ (Choice.owner_mem_keys _)⟩
      · cases heq.symm.trans hnone
    · rintro (never | ⟨k, since, hx, hspared⟩)
      · rcases h.container_cases with ⟨heq, -⟩ | ⟨x, since, hx, -⟩
        · exact heq
        · exact absurd hx (Latest.not_of_never never)
      · rcases h.container_of_latest hx with ⟨heq, -⟩ | ⟨-, key, hkey, herased⟩
        · exact heq
        · cases List.mem_singleton.mp hkey
          exact absurd herased hspared

namespace Replay

/-- At every point of a run, the selection is just what the history of the run tells of it; and as
long as nothing else is selected, a stale selection stays stale, whatever is done. -/
theorem staleness_exact (c : Changeset) (s : Store) (l : List Instruction) :
    let reached := follow c .none ⟨s, []⟩ l
    reached.1.Exact c (attempts c .none ⟨s, []⟩ l) ∧
      ∀ later, (∀ a ∈ attempts c reached.1 reached.2 later, ∀ x, ¬a.Selects c x) →
        let final := (follow c reached.1 reached.2 later).1
        (reached.1.selectedTable = .error .staleSelection →
          final.selectedTable = .error .staleSelection) ∧
        (reached.1.container = .error .staleSelection →
          final.container = .error .staleSelection) := by
  intro reached
  have hstart : Stands c [] .none := .none fun a ha => by cases ha
  have hstands : Stands c (attempts c .none ⟨s, []⟩ l) reached.1 := hstart.follow ⟨s, []⟩ l
  refine ⟨hstands.exact, fun later hlater => ?_⟩
  have hfinal := (hstands.follow reached.2 later).exact
  have herased : ∀ {since more : List Attempt} {key : Key}, ErasedIn c since key →
      ErasedIn c (since ++ more) key := fun ⟨a, ha, h⟩ => ⟨a, List.mem_append_left _ ha, h⟩
  constructor
  · intro hstale
    obtain ⟨x, since, hx, h⟩ := hstands.exact.tableErased.mp hstale
    exact hfinal.tableErased.mpr ⟨x, _, hx.append hlater, herased h⟩
  · intro hstale
    obtain ⟨x, since, hx, key, hkey, h⟩ := hstands.exact.listErased.mp hstale
    exact hfinal.listErased.mpr ⟨x, _, hx.append hlater, key, hkey, herased h⟩

/-- A list is selected, and its column erased and added again; then so is its table. -/
def regrown : Changeset where
  schemaVersion := 1
  strings := ["dogs", "tags"]
  buffer := ""
  instructions := [.addTable ⟨0⟩ none, .addColumn ⟨0⟩ ⟨1⟩ .string false true none,
    .selectTable ⟨0⟩, .createObject none, .selectField (.created 0) ⟨1⟩, .eraseColumn ⟨0⟩ ⟨1⟩,
    .addColumn ⟨0⟩ ⟨1⟩ .string false true none, .eraseTable ⟨0⟩, .addTable ⟨0⟩ none]

theorem staleness_exact_regrown :
    (follow regrown .none ⟨.new 1, []⟩ (regrown.instructions.take 7)).1 = .staleContainer ⟨0⟩ ∧
      (follow regrown .none ⟨.new 1, []⟩ regrown.instructions).1 = .stale ∧
      ∃ x since, Latest regrown (attempts regrown .none ⟨.new 1, []⟩ regrown.instructions) x since ∧
        ErasedIn regrown since (.table x.owner) := by
  have hfinal : (follow regrown .none ⟨.new 1, []⟩ regrown.instructions).1 = .stale := by
    decide +kernel
  refine ⟨by decide +kernel, hfinal, ?_⟩
  have hexact := (staleness_exact regrown (.new 1) regrown.instructions).1
  exact hexact.tableErased.mp (congrArg Selection.selectedTable hfinal)

end Replay
end ChangesetReplay
