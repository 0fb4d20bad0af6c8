import ChangesetReplay.State.Store.Basic

/-! # Readings and actions taken apart

When a sequence of readings or actions succeeds, each part succeeded on what the parts before it
left. An action that does all its reading before it writes, and cannot fail once it has written, is
atomic: when it fails, the state is as it was. -/

namespace ChangesetReplay

namespace Reading
variable {ε α β : Type}

@[simp] theorem bind_ok_iff {x : Except ε α} {f : α → Except ε β} {b : β} :
    (x >>= f) = .ok b ↔ ∃ a, x = .ok a ∧ f a = .ok b := by
  cases x with
  | error e => simp [bind, Except.bind]
  | ok a => simp [bind, Except.bind]

@[simp] theorem map_ok_iff {x : Except ε α} {f : α → β} {b : β} :
    (f <$> x) = .ok b ↔ ∃ a, x = .ok a ∧ f a = b := by
  cases x with
  | error e => simp [Functor.map, Except.map]
  | ok a => simp [Functor.map, Except.map]

@[simp] theorem pure_ok_iff {a b : α} : (pure a : Except ε α) = .ok b ↔ a = b := by
  simp [pure, Except.pure]

@[simp] theorem throw_bind {e : ε} {f : α → Except ε β} :
    ((throw e : Except ε α) >>= f) = throw e := rfl

theorem ok_bind {a : α} {f : α → Except ε β} : (.ok a >>= f) = f a := rfl

theorem error_bind {e : ε} {f : α → Except ε β} : (.error e >>= f) = .error e := rfl

/-- A guard that throws was passed. -/
@[simp] theorem guard_ok_iff {c : Prop} [Decidable c] {e : ε} {x : Except ε α} {a : α} :
    (if c then throw e else x) = .ok a ↔ ¬c ∧ x = .ok a := by
  by_cases h : c <;> simp [h, throw, throwThe, MonadExceptOf.throw]

@[simp] theorem unit_ok_iff {x : Except ε Unit} : (∃ u, x = .ok u) ↔ x = .ok () := by
  constructor
  · rintro ⟨⟨⟩, h⟩
    exact h
  · exact fun h => ⟨(), h⟩

theorem unit_bind_ok_iff {x : Except ε Unit} {f : Unit → Except ε β} {b : β} :
    (x >>= f) = .ok b ↔ x = .ok () ∧ f () = .ok b := by
  rw [bind_ok_iff]
  constructor
  · rintro ⟨⟨⟩, hx, hf⟩
    exact ⟨hx, hf⟩
  · exact fun ⟨hx, hf⟩ => ⟨(), hx, hf⟩

theorem forM_ok_iff {f : α → Except ε Unit} {l : List α} :
    l.forM f = .ok () ↔ ∀ a ∈ l, f a = .ok () := by
  induction l with
  | nil => simp [pure, Except.pure]
  | cons a l ih =>
    have hcons : (a :: l).forM f = (f a >>= fun _ => l.forM f) := rfl
    simp only [hcons, unit_bind_ok_iff, ih, List.mem_cons, forall_eq_or_imp]

end Reading

namespace ActionLaws
variable {ε σ α β : Type} {s s' : σ} {e : ε}

theorem bind_ok_iff {x : EStateM ε σ α} {f : α → EStateM ε σ β} {b : β} :
    (x >>= f) s = .ok b s' ↔ ∃ a t, x s = .ok a t ∧ f a t = .ok b s' := by
  simp only [bind, EStateM.bind]
  cases x s with
  | error e t => simp
  | ok a t =>
    constructor
    · exact fun h => ⟨a, t, rfl, h⟩
    · rintro ⟨a', t', h, h'⟩
      cases h
      exact h'

@[simp] theorem map_ok_iff {x : EStateM ε σ α} {f : α → β} {b : β} :
    (f <$> x) s = .ok b s' ↔ ∃ a, x s = .ok a s' ∧ f a = b := by
  simp only [Functor.map, EStateM.map]
  cases x s with
  | error e t => simp
  | ok a t =>
    constructor
    · rintro h
      cases h
      exact ⟨a, rfl, rfl⟩
    · rintro ⟨a', h, rfl⟩
      cases h
      rfl

@[simp] theorem pure_ok_iff {a b : α} :
    (pure a : EStateM ε σ α) s = .ok b s' ↔ a = b ∧ s = s' := by
  simp [pure, EStateM.pure]

@[simp] theorem throw_ne_ok {a : α} : ¬(throw e : EStateM ε σ α) s = .ok a s' := nofun

@[simp] theorem throw_bind {f : α → EStateM ε σ β} : ((throw e : EStateM ε σ α) >>= f) = throw e :=
  rfl

@[simp] theorem get_ok_iff {t : σ} : (get : EStateM ε σ σ) s = .ok t s' ↔ s = t ∧ s = s' := by
  show EStateM.Result.ok s s = .ok t s' ↔ _
  rw [EStateM.Result.ok.injEq]

@[simp] theorem modify_ok_iff {f : σ → σ} {u : PUnit} :
    (modify f : EStateM ε σ PUnit) s = .ok u s' ↔ f s = s' := by
  show EStateM.Result.ok ⟨⟩ (f s) = .ok u s' ↔ _
  simp

@[simp] theorem get_bind {f : σ → EStateM ε σ α} : (get >>= f) s = f s s := rfl

@[simp] theorem modify_bind {f : σ → σ} {g : PUnit → EStateM ε σ α} :
    ((modify f : EStateM ε σ PUnit) >>= g) s = g ⟨⟩ (f s) := rfl

@[simp] theorem modify_map {f : σ → σ} {g : PUnit → α} :
    (g <$> (modify f : EStateM ε σ PUnit)) s = .ok (g ⟨⟩) (f s) := rfl

@[simp] theorem guard_ok_iff {c : Prop} [Decidable c] {x : EStateM ε σ α} {a : α} :
    (if c then throw e else x) s = .ok a s' ↔ ¬c ∧ x s = .ok a s' := by
  by_cases h : c <;> simp [h]

@[simp] theorem guard_not_ok_iff {c : Prop} [Decidable c] {x : EStateM ε σ α} {a : α} :
    (if c then x else throw e) s = .ok a s' ↔ c ∧ x s = .ok a s' := by
  by_cases h : c <;> simp [h]

@[simp] theorem read_ok_iff {f : Store → Except Cause α} {s s' : Store} {a : α} :
    Store.Action.read f s = .ok a s' ↔ f s = .ok a ∧ s = s' := by
  unfold Store.Action.read
  cases f s <;> simp

@[simp] theorem read_bind_ok_iff {f : Store → Except Cause α} {g : α → Store.Action β}
    {s s' : Store} {b : β} :
    (Store.Action.read f >>= g) s = .ok b s' ↔ ∃ a, f s = .ok a ∧ g a s = .ok b s' := by
  simp only [bind_ok_iff, read_ok_iff]
  constructor
  · rintro ⟨a, t, ⟨h, rfl⟩, hg⟩
    exact ⟨a, h, hg⟩
  · rintro ⟨a, h, hg⟩
    exact ⟨a, s, ⟨h, rfl⟩, hg⟩

theorem read_bind_of_ok {f : Store → Except Cause α} {g : α → Store.Action β} {s : Store} {a : α}
    (h : f s = .ok a) : (Store.Action.read f >>= g) s = g a s := by
  simp only [bind, EStateM.bind, Store.Action.read, h]

theorem read_bind_of_error {f : Store → Except Cause α} {g : α → Store.Action β} {s : Store}
    {e : Cause} (h : f s = .error e) : (Store.Action.read f >>= g) s = .error e s := by
  simp only [bind, EStateM.bind, Store.Action.read, h]

def ReadOnly (x : EStateM ε σ α) : Prop :=
  ∀ s, (∀ a s', x s = .ok a s' → s' = s) ∧ ∀ e s', x s = .error e s' → s' = s

/-- When it fails, it leaves the state as it was. -/
def Atomic (x : EStateM ε σ α) : Prop := ∀ s e s', x s = .error e s' → s' = s

def Total (x : EStateM ε σ α) : Prop := ∀ s, ∃ a s', x s = .ok a s'

theorem bind_error {x : EStateM ε σ α} {f : α → EStateM ε σ β} (h : (x >>= f) s = .error e s') :
    x s = .error e s' ∨ ∃ a t, x s = .ok a t ∧ f a t = .error e s' := by
  simp only [bind, EStateM.bind] at h
  cases hx : x s with
  | error e t => simp_all
  | ok a t =>
    rw [hx] at h
    exact .inr ⟨a, t, rfl, h⟩

namespace ReadOnly

theorem read (f : Store → Except Cause α) : ReadOnly (Store.Action.read f) := by
  intro s
  unfold Store.Action.read
  cases f s <;> simp_all

theorem get : ReadOnly (get : EStateM ε σ σ) := by
  intro s
  exact ⟨fun a s' h => (get_ok_iff.mp h).2.symm, fun e s' h => by cases h⟩

theorem pure (a : α) : ReadOnly (pure a : EStateM ε σ α) := by
  intro s
  exact ⟨fun b s' h => (pure_ok_iff.mp h).2.symm, fun e s' h => by cases h⟩

theorem bind {x : EStateM ε σ α} {f : α → EStateM ε σ β} (hx : ReadOnly x)
    (hf : ∀ a, ReadOnly (f a)) : ReadOnly (x >>= f) := by
  intro s
  constructor
  · intro b s' h
    obtain ⟨a, t, ha, hb⟩ := bind_ok_iff.mp h
    rw [(hf a t).1 b s' hb, (hx s).1 a t ha]
  · intro e s' h
    rcases bind_error h with h | ⟨a, t, ha, h⟩
    · exact (hx s).2 e s' h
    · rw [(hf a t).2 e s' h, (hx s).1 a t ha]

end ReadOnly

namespace Atomic

theorem of_readOnly {x : EStateM ε σ α} (h : ReadOnly x) : Atomic x := fun s => (h s).2

theorem throw (e : ε) : Atomic (throw e : EStateM ε σ α) := by
  intro s e' s' h
  cases h
  rfl

theorem of_total {x : EStateM ε σ α} (h : Total x) : Atomic x := by
  intro s e s' he
  obtain ⟨a, t, ha⟩ := h s
  rw [ha] at he
  cases he

theorem bind {x : EStateM ε σ α} {f : α → EStateM ε σ β} (hx : ReadOnly x)
    (hf : ∀ a, Atomic (f a)) : Atomic (x >>= f) := by
  intro s e s' h
  rcases bind_error h with h | ⟨a, t, ha, h⟩
  · exact (hx s).2 e s' h
  · rw [hf a t e s' h, (hx s).1 a t ha]

/-- After a write, only what cannot fail on the state reached may follow. -/
theorem bind_of_ok {x : EStateM ε σ α} {f : α → EStateM ε σ β} (hx : Atomic x)
    (hf : ∀ s a t, x s = .ok a t → ∃ b s', f a t = .ok b s') : Atomic (x >>= f) := by
  intro s e s' h
  rcases bind_error h with h | ⟨a, t, ha, h⟩
  · exact hx s e s' h
  · obtain ⟨b, u, hb⟩ := hf s a t ha
    rw [hb] at h
    cases h

theorem map {x : EStateM ε σ α} (hx : Atomic x) (f : α → β) : Atomic (f <$> x) := by
  intro s e s' h
  simp only [Functor.map, EStateM.map] at h
  cases hs : x s with
  | error e t =>
    rw [hs] at h
    cases h
    exact hx s _ _ hs
  | ok a t =>
    rw [hs] at h
    cases h

theorem guard {c : Prop} [Decidable c] {x : EStateM ε σ α} (hx : Atomic x) (e : ε) :
    Atomic (if c then MonadExcept.throw e else x) := by
  by_cases h : c
  · simpa [h] using throw e
  · simpa [h] using hx

end Atomic

namespace Total

theorem pure (a : α) : Total (pure a : EStateM ε σ α) := fun s => ⟨a, s, rfl⟩

theorem modify (f : σ → σ) : Total (modify f : EStateM ε σ PUnit) := fun s => ⟨⟨⟩, f s, rfl⟩

theorem bind {x : EStateM ε σ α} {f : α → EStateM ε σ β} (hx : Total x) (hf : ∀ a, Total (f a)) :
    Total (x >>= f) := by
  intro s
  obtain ⟨a, t, ha⟩ := hx s
  obtain ⟨b, s', hb⟩ := hf a t
  exact ⟨b, s', bind_ok_iff.mpr ⟨a, t, ha, hb⟩⟩

end Total
end ActionLaws
end ChangesetReplay
