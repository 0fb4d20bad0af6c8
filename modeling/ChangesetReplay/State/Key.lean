import Std.Data.ExtTreeMap

/-! # Keys

The handles under which a store keeps tables, a table its columns, and a table its objects. They are
counted up from zero and ordered by number. -/

namespace ChangesetReplay

/-- Handle of a table in its store. -/
structure TableKey where
  index : UInt32
deriving DecidableEq

/-- Handle of a column in its table. -/
structure ColumnKey where
  index : UInt32
deriving DecidableEq

/-- Handle of an object in its table. -/
structure ObjectKey where
  index : UInt64
deriving DecidableEq

instance : Ord TableKey := ⟨fun a b => compare a.index b.index⟩

instance : Ord ColumnKey := ⟨fun a b => compare a.index b.index⟩

instance : Ord ObjectKey := ⟨fun a b => compare a.index b.index⟩

/-- An order read off an index inherits its laws. -/
theorem transOrd_of_index {α β : Type} [Ord α] [Ord β] [Std.TransOrd β] (index : α → β)
    (h : ∀ a b : α, compare a b = compare (index a) (index b)) : Std.TransOrd α where
  eq_swap {a b} := by rw [h, h]; exact Std.OrientedCmp.eq_swap
  isLE_trans {a b c} hab hbc := by
    rw [h] at hab hbc ⊢; exact Std.TransCmp.isLE_trans hab hbc

theorem lawfulEqOrd_of_index {α β : Type} [Ord α] [Ord β] [Std.LawfulEqOrd β] (index : α → β)
    (h : ∀ a b : α, compare a b = compare (index a) (index b))
    (injective : ∀ a b : α, index a = index b → a = b) : Std.LawfulEqOrd α where
  eq_of_compare {a b} hab := by
    rw [h] at hab; exact injective a b (Std.LawfulEqCmp.eq_of_compare hab)
  compare_self {a} := by rw [h]; exact Std.ReflCmp.compare_self

instance : Std.TransOrd TableKey := transOrd_of_index (·.index) fun _ _ => rfl

instance : Std.TransOrd ColumnKey := transOrd_of_index (·.index) fun _ _ => rfl

instance : Std.TransOrd ObjectKey := transOrd_of_index (·.index) fun _ _ => rfl

instance : Std.LawfulEqOrd TableKey :=
  lawfulEqOrd_of_index (·.index) (fun _ _ => rfl) fun _ _ => congrArg TableKey.mk

instance : Std.LawfulEqOrd ColumnKey :=
  lawfulEqOrd_of_index (·.index) (fun _ _ => rfl) fun _ _ => congrArg ColumnKey.mk

instance : Std.LawfulEqOrd ObjectKey :=
  lawfulEqOrd_of_index (·.index) (fun _ _ => rfl) fun _ _ => congrArg ObjectKey.mk

def TableKey.text (k : TableKey) : String := "table#" ++ toString k.index.toNat

def ColumnKey.text (k : ColumnKey) : String := "col#" ++ toString k.index.toNat

def ObjectKey.text (k : ObjectKey) : String := "obj#" ++ toString k.index.toNat

end ChangesetReplay
