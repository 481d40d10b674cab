import Mathlib.Tactic

/-!
# Calls that may throw

First calls without a state, then those of `EStateM` and what they leave behind:
`stateOf` is the state after a call, whether it throws or not. `Moves R` says
that it goes from a state to `R`-later ones only, and is built up along the
program.
-/

namespace Lodestar.Base

variable {ε σ α β : Type}

/-! ## Calls without a state -/

theorem eq_ok_of_bind {x : Except ε α} {f : α → Except ε β} {b : β} (h : x >>= f = .ok b) :
    ∃ a, x = .ok a ∧ f a = .ok b := by
  cases x with
  | error e => cases h
  | ok a => exact ⟨a, rfl, h⟩

theorem ok_bind (a : α) (f : α → Except ε β) : (Except.ok a >>= f) = f a := rfl

theorem eq_ok_of_mapError {ε' : Type} {x : Except ε α} {f : ε → ε'} {a : α}
    (h : x.mapError f = .ok a) : x = .ok a := by
  cases x with
  | error e => cases h
  | ok b => exact congrArg Except.ok (Except.ok.inj h)

theorem mapM_eq_ok_map_iff {l : List α} {f : α → Except ε β} {g : α → β} :
    l.mapM f = .ok (l.map g) ↔ ∀ a ∈ l, f a = .ok (g a) := by
  induction l with
  | nil => simp [pure, Except.pure]
  | cons a l ih =>
    rw [List.mapM_cons, List.map_cons, List.forall_mem_cons, ← ih]
    constructor
    · intro h
      obtain ⟨b, hb, h⟩ := eq_ok_of_bind h
      obtain ⟨r, hr, h⟩ := eq_ok_of_bind h
      obtain ⟨rfl, rfl⟩ := List.cons.inj (Except.ok.inj h)
      exact ⟨hb, hr⟩
    · rintro ⟨hb, hr⟩
      rw [hb, hr]
      rfl

theorem exists_mapM_ok {f : α → Except ε β} {l : List α} (h : ∀ a ∈ l, ∃ b, f a = .ok b) :
    ∃ bs, l.mapM f = .ok bs := by
  induction l with
  | nil => exact ⟨[], rfl⟩
  | cons a l ih =>
    rw [List.forall_mem_cons] at h
    obtain ⟨⟨b, hb⟩, hl⟩ := h
    obtain ⟨bs, hbs⟩ := ih hl
    exact ⟨b :: bs, by rw [List.mapM_cons, hb, ok_bind, hbs]; rfl⟩

/-- The value of a call that does not throw. -/
def okOr (a : α) : Except ε α → α
  | .ok b => b
  | .error _ => a

theorem eq_ok_okOr (a : α) {x : Except ε α} (h : x.isOk = true) : x = .ok (okOr a x) := by
  cases x with
  | ok b => rfl
  | error _ => cases h

theorem exists_ok_of_map {x : Except ε α} {f : α → β} {b : β} (h : x.toOption.map f = some b) :
    ∃ a, x = .ok a ∧ f a = b := by
  cases x with
  | ok a => exact ⟨a, rfl, Option.some.inj h⟩
  | error e => cases h

/-! ## What a call leaves behind -/

/-- The state after a call. -/
def stateOf : EStateM.Result ε σ α → σ
  | .ok _ s => s
  | .error _ s => s

@[simp] theorem stateOf_ok (a : α) (s : σ) : stateOf (.ok a s : EStateM.Result ε σ α) = s := rfl

@[simp] theorem stateOf_error (e : ε) (s : σ) :
    stateOf (.error e s : EStateM.Result ε σ α) = s := rfl

/-- `f` of the state after a call. -/
def mapState {τ : Type} (f : σ → τ) : EStateM.Result ε σ α → EStateM.Result ε τ α
  | .ok a s => .ok a (f s)
  | .error e s => .error e (f s)

@[simp] theorem mapState_ok {τ : Type} (f : σ → τ) (a : α) (s : σ) :
    mapState f (.ok a s : EStateM.Result ε σ α) = .ok a (f s) := by
  rw [mapState]

@[simp] theorem mapState_error {τ : Type} (f : σ → τ) (e : ε) (s : σ) :
    mapState f (.error e s : EStateM.Result ε σ α) = .error e (f s) := by
  rw [mapState]

@[simp] theorem stateOf_mapState {τ : Type} (f : σ → τ) (r : EStateM.Result ε σ α) :
    stateOf (mapState f r) = f (stateOf r) := by
  cases r <;> rfl

/-- What a call throws. -/
def errorOf : EStateM.Result ε σ α → Option ε
  | .ok _ _ => none
  | .error e _ => some e

theorem eq_error_of_errorOf {r : EStateM.Result ε σ α} {e : ε} (h : errorOf r = some e) :
    r = .error e (stateOf r) := by
  cases r with
  | ok a s => cases h
  | error e' s => rw [Option.some.inj h]; rfl

theorem exists_ok_of_errorOf {r : EStateM.Result ε σ α} (h : errorOf r = none) :
    ∃ a, r = .ok a (stateOf r) := by
  cases r with
  | ok a s => exact ⟨a, rfl⟩
  | error e s => cases h

theorem forall_error_iff {e : ε} {s : σ} {P : σ → Prop} :
    (∀ e' s', (.error e s : EStateM.Result ε σ α) = .error e' s' → P s') ↔ P s := by
  constructor
  · exact fun h => h e s rfl
  · rintro h e' s' ⟨⟩
    exact h

/-- The result of a call that does not change the state. -/
def atState (s : σ) : Except ε α → EStateM.Result ε σ α
  | .ok a => .ok a s
  | .error e => .error e s

@[simp] theorem atState_ok (s : σ) (a : α) :
    atState s (.ok a : Except ε α) = .ok a s := rfl

@[simp] theorem atState_error (s : σ) (e : ε) :
    atState s (.error e : Except ε α) = .error e s := rfl

@[simp] theorem stateOf_atState (s : σ) (r : Except ε α) : stateOf (atState s r) = s := by
  cases r <;> rfl

theorem stateOf_run_bind_unit {x : EStateM ε σ Unit} {y : EStateM ε σ α} (s : σ) :
    stateOf ((x >>= fun _ => y).run s)
      = if (errorOf (x.run s)).isNone = true then stateOf (y.run (stateOf (x.run s)))
        else stateOf (x.run s) := by
  rw [EStateM.run_bind]
  cases x.run s <;> rfl

/-! ## Single calls -/

section Run

variable (s : σ)

@[simp] theorem run_ite {c : Prop} [Decidable c] (x y : EStateM ε σ α) :
    (if c then x else y).run s = if c then x.run s else y.run s := by
  split <;> rfl

@[simp] theorem run_ofExcept (r : Except ε α) :
    (MonadExcept.ofExcept r : EStateM ε σ α).run s = atState s r := by
  cases r <;> rfl

theorem eq_ok_of_run_ofExcept {r : Except ε α} {a : α} {s s' : σ}
    (h : (MonadExcept.ofExcept r : EStateM ε σ α).run s = .ok a s') : r = .ok a ∧ s = s' := by
  rw [run_ofExcept] at h
  cases r with
  | ok b =>
    cases h
    exact ⟨rfl, rfl⟩
  | error e => cases h

theorem eq_ok_of_run_bind {x : EStateM ε σ α} {f : α → EStateM ε σ β} {b : β} {s s' : σ}
    (h : (x >>= f).run s = .ok b s') : ∃ a t, x.run s = .ok a t ∧ (f a).run t = .ok b s' := by
  rw [EStateM.run_bind] at h
  cases hx : x.run s with
  | ok a t => exact ⟨a, t, rfl, by rwa [hx] at h⟩
  | error e t =>
    rw [hx] at h
    cases h

end Run

/-! ## Moves -/

/-- The call goes to `R`-later states only. -/
def Moves (R : σ → σ → Prop) (x : EStateM ε σ α) : Prop :=
  ∀ s, R s (stateOf (x.run s))

namespace Moves

variable {R : σ → σ → Prop} {x : EStateM ε σ α} {f : α → EStateM ε σ β}

theorem bind (htrans : ∀ {a b c}, R a b → R b c → R a c) (hx : Moves R x)
    (hf : ∀ a, Moves R (f a)) : Moves R (x >>= f) := by
  intro s
  have h := hx s
  rw [EStateM.run_bind]
  cases hs : x.run s with
  | ok a t =>
    rw [hs] at h
    exact htrans h (hf a t)
  | error e t =>
    rw [hs] at h
    exact h

theorem get_bind {f : σ → EStateM ε σ β} (hf : ∀ s, R s (stateOf ((f s).run s))) :
    Moves R (get >>= f) := hf

theorem modify {g : σ → σ} (h : ∀ s, R s (g s)) : Moves R (modify g : EStateM ε σ PUnit) := h

theorem ofExcept (hrefl : ∀ s, R s s) (r : Except ε α) :
    Moves R (MonadExcept.ofExcept r : EStateM ε σ α) := by
  intro s
  rw [run_ofExcept, stateOf_atState]
  exact hrefl s

end Moves

end Lodestar.Base
