import Mathlib.Data.List.InsertIdx
import ChangesetReplay.Proofs.CellWrites
import ChangesetReplay.Proofs.StoreHistories

/-! # Edits of lists

A list field is edited as a sequence: each edit says what the elements are afterwards, and refuses an
index that is out of range. A move takes an element out before it is put in again, so its second
index is one of the list that comes of it; moves and exchanges are told by what they lead to, which
is the same read backwards. Nothing but the list is changed. -/

namespace ChangesetReplay

namespace Sequence
variable {α : Type} {i j : Nat} {a : α} {l r r' : List α}

theorem insertIdx_eq_take_drop (h : i ≤ l.length) : l.insertIdx i a = l.take i ++ a :: l.drop i := by
  induction l generalizing i with
  | nil =>
    cases Nat.le_zero.mp h
    rfl
  | cons b l ih =>
    cases i with
    | zero => rfl
    | succ i =>
      rw [List.insertIdx_succ_cons, ih (Nat.le_of_succ_le_succ h), List.take_succ_cons,
        List.drop_succ_cons, List.cons_append]

theorem at?_of_lt (h : i < l.length) : at? l i = .ok l[i] := at?_ok_iff.mpr (by simp [h])

theorem at?_of_le (h : l.length ≤ i) : at? l i = .error (.indexOutOfBounds i l.length) := by
  simp [at?, outOfBounds, h]

theorem insert_of_le (h : i ≤ l.length) : insert i a l = .ok (l.take i ++ a :: l.drop i) := by
  rw [insert, if_pos h, insertIdx_eq_take_drop h]

theorem insert_of_lt (h : l.length < i) :
    insert i a l = .error (.indexOutOfBounds i l.length) := if_neg (by omega)

theorem set_of_lt (h : i < l.length) : set i a l = .ok (l.take i ++ a :: l.drop (i + 1)) := by
  rw [set, if_pos h, List.set_eq_take_append_cons_drop, if_pos h]

theorem set_of_le (h : l.length ≤ i) :
    set i a l = .error (.indexOutOfBounds i l.length) := if_neg (by omega)

theorem erase_of_lt (h : i < l.length) : erase i l = .ok (l.take i ++ l.drop (i + 1)) := by
  rw [erase, if_pos h, List.eraseIdx_eq_take_drop_succ]

theorem erase_of_le (h : l.length ≤ i) :
    erase i l = .error (.indexOutOfBounds i l.length) := if_neg (by omega)

/-- The list `r` is `l` with the element at `i` moved to `j`. -/
structure Moved (i j : Nat) (l r : List α) : Prop where
  length_eq : r.length = l.length
  element : r[j]? = l[i]?
  others : r.eraseIdx j = l.eraseIdx i

theorem Moved.symm (h : Moved i j l r) : Moved j i r l :=
  ⟨h.length_eq.symm, h.element.symm, h.others.symm⟩

theorem Moved.unique (hj : j < l.length) (h : Moved i j l r) (h' : Moved i j l r') : r = r' := by
  have hr : j < r.length := h.length_eq ▸ hj
  have hr' : j < r'.length := h'.length_eq ▸ hj
  have helement : r[j] = r'[j] := by
    apply Option.some.inj
    rw [← List.getElem?_eq_getElem hr, ← List.getElem?_eq_getElem hr', h.element, h'.element]
  -- A list is told by one of its elements and by what is left without it.
  calc r = (r.eraseIdx j).insertIdx j r[j] := (List.insertIdx_eraseIdx_getElem hr).symm
    _ = (r'.eraseIdx j).insertIdx j r'[j] := by rw [h.others, h'.others, helement]
    _ = r' := List.insertIdx_eraseIdx_getElem hr'

theorem exists_move (hi : i < l.length) (hj : j < l.length) :
    ∃ r, move i j l = .ok r ∧ Moved i j l r := by
  refine ⟨(l.eraseIdx i).insertIdx j l[i], ?_, ?_⟩
  · rw [move, at?_of_lt hi, Reading.ok_bind, if_pos hj]
  · have hlength := List.length_eraseIdx_of_lt hi
    have hplace : j ≤ (l.eraseIdx i).length := by omega
    refine ⟨?_, ?_, List.eraseIdx_insertIdx_self _⟩
    · rw [List.length_insertIdx_of_le_length hplace]
      omega
    · rw [List.getElem?_insertIdx_self, if_pos hplace, List.getElem?_eq_getElem hi]

theorem Moved.move_eq (hi : i < l.length) (hj : j < l.length) (h : Moved i j l r) :
    move i j l = .ok r := by
  obtain ⟨r', hr', hmoved⟩ := exists_move hi hj
  rw [hr', hmoved.unique hj h]

/-- The first index is looked at first. -/
theorem move_of_le (hi : l.length ≤ i) :
    move i j l = .error (.indexOutOfBounds i l.length) := by
  rw [move, at?_of_le hi, Reading.error_bind]

theorem move_of_lt_of_le (hi : i < l.length) (hj : l.length ≤ j) :
    move i j l = .error (.indexOutOfBounds j l.length) := by
  rw [move, at?_of_lt hi, Reading.ok_bind, if_neg (by omega), outOfBounds]

structure Swapped (i j : Nat) (l r : List α) : Prop where
  length_eq : r.length = l.length
  first : r[i]? = l[j]?
  second : r[j]? = l[i]?
  others : ∀ k, k ≠ i → k ≠ j → r[k]? = l[k]?

theorem Swapped.symm (h : Swapped i j l r) : Swapped i j r l :=
  ⟨h.length_eq.symm, h.second.symm, h.first.symm, fun k hi hj => (h.others k hi hj).symm⟩

theorem Swapped.unique (h : Swapped i j l r) (h' : Swapped i j l r') : r = r' := by
  apply List.ext_getElem?
  intro k
  by_cases hi : k = i
  · rw [hi, h.first, h'.first]
  · by_cases hj : k = j
    · rw [hj, h.second, h'.second]
    · rw [h.others k hi hj, h'.others k hi hj]

theorem exists_swap (hi : i < l.length) (hj : j < l.length) :
    ∃ r, swap i j l = .ok r ∧ Swapped i j l r := by
  refine ⟨(l.set i l[j]).set j l[i], ?_, ?_⟩
  · rw [swap, at?_of_lt hi, at?_of_lt hj, Reading.ok_bind, Reading.ok_bind]
  · refine ⟨by simp, ?_, by simp [hi, hj], fun k hki hkj => ?_⟩
    · by_cases h : j = i
      · subst h
        simp
      · simp [h, hi, hj]
    · simp [hki.symm, hkj.symm]

theorem Swapped.swap_eq (hi : i < l.length) (hj : j < l.length) (h : Swapped i j l r) :
    swap i j l = .ok r := by
  obtain ⟨r', hr', hswapped⟩ := exists_swap hi hj
  rw [hr', hswapped.unique h]

theorem swap_of_le (hi : l.length ≤ i) :
    swap i j l = .error (.indexOutOfBounds i l.length) := by
  rw [swap, at?_of_le hi, Reading.error_bind]

theorem swap_of_lt_of_le (hi : i < l.length) (hj : l.length ≤ j) :
    swap i j l = .error (.indexOutOfBounds j l.length) := by
  rw [swap, at?_of_lt hi, Reading.ok_bind, at?_of_le hj, Reading.error_bind]

end Sequence

namespace Store
variable {s s' : Store} {f : FieldRef} {l r : List Value} {v : Value} {e : Cause}
variable {edit : List Value → Except Cause (List Value)}

def Takes (s : Store) (f : FieldRef) (v : Value) : Prop :=
  ∃ t d, s.tables[f.table]? = some t ∧ t.columnDef f.column = .ok d ∧ d.Admits s v

/-- The action leaves `r` in the list field `f`, and leaves all else alone. -/
def Rewrites (s : Store) (f : FieldRef) (act : Action Unit) (r : List Value) (s' : Store) : Prop :=
  act s = .ok () s' ∧ s.Written f (.list r) s'

/-- The action refuses an index of a list of `n` elements, and changes nothing. -/
def Refuses (s : Store) (act : Action Unit) (i n : Nat) : Prop :=
  act s = .error (.indexOutOfBounds i n) s

theorem editList_rewrites (hl : s.items f = .ok l) (hedit : edit l = .ok r) :
    s.Rewrites f (editList f edit) r (s.putCell f (.list r)) := by
  obtain ⟨t, d, o, hat⟩ := items_ok_iff.mp hl
  exact ⟨editList_ok_iff.mpr ⟨l, r, hl, hedit, rfl⟩, hat.written_iff.mpr rfl⟩

theorem editList_error (hl : s.items f = .ok l) (hedit : edit l = .error e) :
    editList f edit s = .error e s := by
  rw [editList, ActionLaws.read_bind_of_ok hl, ActionLaws.read_bind_of_error hedit]

/-- What an edit made of a list is made of it again by the edit that goes back. -/
theorem editList_undone (hl : s.items f = .ok l) (hedit : edit r = .ok l) :
    editList f edit (s.putCell f (.list r)) = .ok () s := by
  obtain ⟨t, d, o, hat⟩ := items_ok_iff.mp hl
  have hr : (s.putCell f (.list r)).items f = .ok r := items_ok_iff.mpr ⟨_, _, _, hat.putCell _⟩
  exact editList_ok_iff.mpr ⟨r, l, hr, hedit, hat.putCell_putCell _⟩

theorem Intact.checkElement_of_takes (hs : s.Intact) (hv : s.Takes f v) :
    checkElement f v s = .ok () s := by
  obtain ⟨t, d, ht, hd, hadmits⟩ := hv
  have hvalid := (hs.filled.table _ t ht).valid _ (Table.columnDef_ok hd)
  have hcheck := (ColumnDef.checkValue_ok_iff_admits hs.coherent.named hvalid).mpr hadmits
  exact checkElement_ok_iff.mpr ⟨⟨t, d, ht, hd, hcheck⟩, rfl⟩

/-- Once the element is checked, only the edit decides. -/
theorem Intact.checkedEdit_eq (hs : s.Intact) (hv : s.Takes f v) :
    (checkElement f v >>= fun _ => editList f edit) s = editList f edit s := by
  simp only [bind, EStateM.bind, hs.checkElement_of_takes hv]

structure EditsExactly (s : Store) (f : FieldRef) (l : List Value) : Prop where
  insert : ∀ i v, s.Takes f v →
    (i ≤ l.length → ∃ s', s.Rewrites f (listInsert f i v) (l.take i ++ v :: l.drop i) s') ∧
    (l.length < i → s.Refuses (listInsert f i v) i l.length)
  set : ∀ i v, s.Takes f v →
    (i < l.length → ∃ s', s.Rewrites f (listSet f i v) (l.take i ++ v :: l.drop (i + 1)) s') ∧
    (l.length ≤ i → s.Refuses (listSet f i v) i l.length)
  erase : ∀ i,
    (i < l.length → ∃ s', s.Rewrites f (listErase f i) (l.take i ++ l.drop (i + 1)) s') ∧
    (l.length ≤ i → s.Refuses (listErase f i) i l.length)
  move : ∀ i j,
    (i < l.length → j < l.length → ∃ r s', s.Rewrites f (listMove f i j) r s' ∧
      Sequence.Moved i j l r ∧ listMove f j i s' = .ok () s) ∧
    (l.length ≤ i → s.Refuses (listMove f i j) i l.length) ∧
    (i < l.length → l.length ≤ j → s.Refuses (listMove f i j) j l.length)
  swap : ∀ i j,
    (i < l.length → j < l.length → ∃ r s', s.Rewrites f (listSwap f i j) r s' ∧
      Sequence.Swapped i j l r ∧ listSwap f i j s' = .ok () s) ∧
    (l.length ≤ i → s.Refuses (listSwap f i j) i l.length) ∧
    (i < l.length → l.length ≤ j → s.Refuses (listSwap f i j) j l.length)
  clear : ∃ s', s.Rewrites f (listClear f) [] s'

theorem listMove_exact (hl : s.items f = .ok l) {i j : Nat} (hi : i < l.length)
    (hj : j < l.length) : ∃ r s', s.Rewrites f (listMove f i j) r s' ∧ Sequence.Moved i j l r ∧
      listMove f j i s' = .ok () s := by
  obtain ⟨r, hr, hmoved⟩ := Sequence.exists_move hi hj
  have hback : Sequence.move j i r = .ok l :=
    hmoved.symm.move_eq (hmoved.length_eq ▸ hj) (hmoved.length_eq ▸ hi)
  exact ⟨r, _, editList_rewrites hl hr, hmoved, editList_undone hl hback⟩

theorem listSwap_exact (hl : s.items f = .ok l) {i j : Nat} (hi : i < l.length)
    (hj : j < l.length) : ∃ r s', s.Rewrites f (listSwap f i j) r s' ∧ Sequence.Swapped i j l r ∧
      listSwap f i j s' = .ok () s := by
  obtain ⟨r, hr, hswapped⟩ := Sequence.exists_swap hi hj
  have hback : Sequence.swap i j r = .ok l :=
    hswapped.symm.swap_eq (hswapped.length_eq ▸ hi) (hswapped.length_eq ▸ hj)
  exact ⟨r, _, editList_rewrites hl hr, hswapped, editList_undone hl hback⟩

theorem Intact.editsExactly (hs : s.Intact) (hl : s.items f = .ok l) : s.EditsExactly f l where
  insert i v hv := by
    simp only [Rewrites, Refuses, listInsert, hs.checkedEdit_eq hv]
    exact ⟨fun hi => ⟨_, editList_rewrites hl (Sequence.insert_of_le hi)⟩,
      fun hi => editList_error hl (Sequence.insert_of_lt hi)⟩
  set i v hv := by
    simp only [Rewrites, Refuses, listSet, hs.checkedEdit_eq hv]
    exact ⟨fun hi => ⟨_, editList_rewrites hl (Sequence.set_of_lt hi)⟩,
      fun hi => editList_error hl (Sequence.set_of_le hi)⟩
  erase i := ⟨fun hi => ⟨_, editList_rewrites hl (Sequence.erase_of_lt hi)⟩,
    fun hi => editList_error hl (Sequence.erase_of_le hi)⟩
  move i j := ⟨fun hi hj => listMove_exact hl hi hj,
    fun hi => editList_error hl (Sequence.move_of_le hi),
    fun hi hj => editList_error hl (Sequence.move_of_lt_of_le hi hj)⟩
  swap i j := ⟨fun hi hj => listSwap_exact hl hi hj,
    fun hi => editList_error hl (Sequence.swap_of_le hi),
    fun hi hj => editList_error hl (Sequence.swap_of_lt_of_le hi hj)⟩
  clear := ⟨_, editList_rewrites hl rfl⟩

/-- In every store that comes of an empty one, a list field is edited as the sequence that it
holds. -/
theorem list_edited_exactly (v : SchemaVersion) (turns : List Turn)
    (hs : Turn.afterAll (.new v) turns = s) (hl : s.items f = .ok l) : s.EditsExactly f l :=
  (hs ▸ Turn.afterAll_intact (.new v) : s.Intact).editsExactly hl

def secondTeam : List Turn :=
  teamOperations.map .operate ++ [.operate (.call (.createObject ⟨0⟩ none)),
    .operate (.call (.listInsert ⟨⟨1⟩, ⟨0⟩, ⟨2⟩⟩ 1 (.link ⟨1⟩)))]

theorem list_edited_exactly_second :
    let s := Turn.afterAll (.new 1) secondTeam
    s.items ⟨⟨1⟩, ⟨0⟩, ⟨2⟩⟩ = .ok [.link ⟨0⟩, .link ⟨1⟩] ∧ s.Takes ⟨⟨1⟩, ⟨0⟩, ⟨2⟩⟩ (.link ⟨1⟩) ∧
      s.EditsExactly ⟨⟨1⟩, ⟨0⟩, ⟨2⟩⟩ [.link ⟨0⟩, .link ⟨1⟩] := by
  intro s
  have hitems : s.items ⟨⟨1⟩, ⟨0⟩, ⟨2⟩⟩ = .ok [.link ⟨0⟩, .link ⟨1⟩] := by rfl
  have htakes : s.Takes ⟨⟨1⟩, ⟨0⟩, ⟨2⟩⟩ (.link ⟨1⟩) := by
    have hvalid : (ColumnDef.linksTo "former" "teams").validate = .ok () := by rfl
    have hcheck : s.checkValue (.linksTo "former" "teams") (.link ⟨1⟩) = .ok () := by rfl
    have hnamed : s.Named := (Turn.afterAll_coherent (Coherent.new 1)).named
    exact ⟨_, _, rfl, rfl, (ColumnDef.checkValue_ok_iff_admits hnamed hvalid).mp hcheck⟩
  exact ⟨hitems, htakes, list_edited_exactly 1 secondTeam rfl hitems⟩

end Store
end ChangesetReplay
