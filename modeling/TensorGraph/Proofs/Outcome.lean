/-! Outcomes of computations that may stop at a fault, taken apart step by step: what it means that a
sequence or a loop ends well, and what it means that it ends in a fault. -/
namespace TensorGraph

variable {ε α β σ : Type}

theorem ok_bind (a : α) (f : α → Except ε β) : (.ok a >>= f) = f a := rfl

theorem bind_eq_ok {x : Except ε α} {f : α → Except ε β} {b : β} :
    x >>= f = .ok b ↔ ∃ a, x = .ok a ∧ f a = .ok b := by
  cases x <;> simp [bind, Except.bind]

theorem bind_eq_error {x : Except ε α} {f : α → Except ε β} {e : ε} :
    x >>= f = .error e ↔ x = .error e ∨ ∃ a, x = .ok a ∧ f a = .error e := by
  cases x <;> simp [bind, Except.bind]

theorem pure_eq_ok {a b : α} : (pure a : Except ε α) = .ok b ↔ a = b := by
  simp [pure, Except.pure]

theorem pure_ne_error {a : α} {e : ε} : (pure a : Except ε α) ≠ .error e := by
  simp [pure, Except.pure]

theorem map_eq_ok {f : α → β} {x : Except ε α} {b : β} :
    f <$> x = .ok b ↔ ∃ a, x = .ok a ∧ f a = b := by
  cases x <;> simp [Functor.map, Except.map]

theorem throw_ne_ok {e : ε} {a : α} : (throw e : Except ε α) ≠ .ok a := by
  simp [throw, throwThe, MonadExceptOf.throw]

theorem throw_eq_error {e e' : ε} : (throw e : Except ε α) = .error e' ↔ e = e' := by
  simp [throw, throwThe, MonadExceptOf.throw]

/-- A check on every element passes when it passes on each of them. -/
theorem forM_eq_ok {f : α → Except ε PUnit} {xs : List α} :
    xs.forM f = .ok () ↔ ∀ x ∈ xs, f x = .ok () := by
  induction xs with
  | nil => simp [pure_eq_ok]
  | cons x xs ih =>
    change (f x >>= fun _ => xs.forM f) = .ok () ↔ _
    rw [bind_eq_ok, List.forall_mem_cons, ← ih]
    constructor
    · intro h
      obtain ⟨_, here, later⟩ := h
      exact ⟨here, later⟩
    · intro h
      obtain ⟨here, later⟩ := h
      exact ⟨(), here, later⟩

/-- A loop stops at a fault when some element faults behind elements that pass. -/
theorem foldlM_eq_error {f : σ → α → Except ε σ} {xs : List α} {s : σ} {e : ε} :
    xs.foldlM f s = .error e ↔ ∃ (i : Nat) (x : α) (t : σ), xs[i]? = some x ∧
      (xs.take i).foldlM f s = .ok t ∧ f t x = .error e := by
  induction xs generalizing s with
  | nil => simp [pure_ne_error]
  | cons x xs ih =>
    rw [List.foldlM_cons, bind_eq_error]
    constructor
    · intro h
      rcases h with here | ⟨t, passed, later⟩
      · exact ⟨0, x, s, rfl, rfl, here⟩
      · obtain ⟨i, y, u, found, ran, fault⟩ := ih.mp later
        refine ⟨i + 1, y, u, found, ?_, fault⟩
        rw [List.take_succ_cons, List.foldlM_cons, bind_eq_ok]
        exact ⟨t, passed, ran⟩
    · intro h
      obtain ⟨i, y, u, found, ran, fault⟩ := h
      cases i with
      | zero =>
        cases found
        cases ran
        exact .inl fault
      | succ i =>
        rw [List.take_succ_cons, List.foldlM_cons, bind_eq_ok] at ran
        obtain ⟨t, passed, ran⟩ := ran
        exact .inr ⟨t, passed, ih.mpr ⟨i, y, u, found, ran, fault⟩⟩

/-- A computation that stops at nothing but faults of a sort. -/
structure FaultsIn (P : ε → Prop) (x : Except ε α) : Prop where
  of_error : ∀ e, x = .error e → P e

namespace FaultsIn

variable {P : ε → Prop}

theorem ok (a : α) : FaultsIn P (.ok a) := ⟨nofun⟩

theorem error {e : ε} (h : P e) : FaultsIn P (.error e : Except ε α) := by
  constructor
  rintro _ ⟨⟩
  exact h

theorem mono {Q : ε → Prop} {x : Except ε α} (faults : FaultsIn P x) (weaker : ∀ e, P e → Q e) :
    FaultsIn Q x :=
  ⟨fun e h => weaker e (faults.of_error e h)⟩

theorem bind {x : Except ε α} {f : α → Except ε β} (first : FaultsIn P x)
    (next : ∀ a, x = .ok a → FaultsIn P (f a)) : FaultsIn P (x >>= f) := by
  constructor
  intro e h
  rcases bind_eq_error.mp h with here | ⟨a, passed, later⟩
  · exact first.of_error e here
  · exact (next a passed).of_error e later

theorem map {x : Except ε α} (faults : FaultsIn P x) (f : α → β) : FaultsIn P (f <$> x) := by
  rw [← bind_pure_comp]
  exact faults.bind fun a _ => ok (f a)

theorem forM_of_mem {f : α → Except ε PUnit} {xs : List α} (each : ∀ a ∈ xs, FaultsIn P (f a)) :
    FaultsIn P (xs.forM f) := by
  induction xs with
  | nil => exact ok _
  | cons x xs ih =>
    rw [List.forall_mem_cons] at each
    exact each.1.bind fun _ _ => ih each.2

theorem forM {f : α → Except ε PUnit} (each : ∀ a, FaultsIn P (f a)) (xs : List α) :
    FaultsIn P (xs.forM f) :=
  forM_of_mem fun a _ => each a

theorem mapM {f : α → Except ε β} (each : ∀ a, FaultsIn P (f a)) (xs : List α) :
    FaultsIn P (xs.mapM f) := by
  induction xs with
  | nil => exact ok _
  | cons x xs ih =>
    rw [List.mapM_cons]
    exact (each x).bind fun _ _ => ih.bind fun _ _ => ok _

theorem foldlM {f : σ → α → Except ε σ} (each : ∀ s a, FaultsIn P (f s a)) (xs : List α) (s : σ) :
    FaultsIn P (xs.foldlM f s) := by
  constructor
  intro e h
  obtain ⟨i, a, t, -, -, fault⟩ := foldlM_eq_error.mp h
  exact (each t a).of_error e fault

end FaultsIn
end TensorGraph
