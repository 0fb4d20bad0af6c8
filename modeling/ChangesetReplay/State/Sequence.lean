import ChangesetReplay.State.Cause

/-! # Editing lists

Positional edits of a list. Each one refuses a position that is out of range, naming the first such
position it was given. -/

namespace ChangesetReplay.Sequence

variable {α : Type}

def outOfBounds (i : Nat) (l : List α) : Except Cause β := .error (.indexOutOfBounds i l.length)

def at? (l : List α) (i : Nat) : Except Cause α :=
  match l[i]? with
  | some a => .ok a
  | none => outOfBounds i l

/-- Puts `a` before position `i`, or at the end. -/
def insert (i : Nat) (a : α) (l : List α) : Except Cause (List α) :=
  if i ≤ l.length then .ok (l.insertIdx i a) else outOfBounds i l

def set (i : Nat) (a : α) (l : List α) : Except Cause (List α) :=
  if i < l.length then .ok (l.set i a) else outOfBounds i l

def erase (i : Nat) (l : List α) : Except Cause (List α) :=
  if i < l.length then .ok (l.eraseIdx i) else outOfBounds i l

/-- Takes the element at `source` out and puts it at position `target` of the result. -/
def move (source target : Nat) (l : List α) : Except Cause (List α) := do
  let a ← at? l source
  if target < l.length then .ok ((l.eraseIdx source).insertIdx target a) else outOfBounds target l

def swap (i j : Nat) (l : List α) : Except Cause (List α) := do
  let a ← at? l i
  let b ← at? l j
  .ok ((l.set i b).set j a)

end ChangesetReplay.Sequence
