import Mathlib.Tactic

/-!
# Async functions on one thread

An async function on a store runs without interruption to its next await: a
`Turn` is where it came to, with the store it left. Unlike for a `Prog`, what
is awaited is not an operation of the store, and others run before the answer
comes. `Turn.Sat` is what a function guarantees of each of its stretches, and
`EventLoop.Step` runs many calls in turn.
-/

namespace Lodestar.Base

/-- The end of a stretch: the function is over, or awaits the answer to `q`. -/
inductive Turn (σ Q : Type) (A : Q → Type) (ε α : Type) where
  | done (result : Except ε α) (store : σ)
  | await (q : Q) (store : σ) (k : A q → σ → Turn σ Q A ε α)

/-- What was awaited, with the answers. -/
abbrev Answers (Q : Type) (A : Q → Type) := List ((q : Q) × A q)

def Async (σ Q : Type) (A : Q → Type) (ε α : Type) : Type := σ → Turn σ Q A ε α

variable {σ Q : Type} {A : Q → Type} {ε α β ι δ : Type}

namespace Turn

def store : Turn σ Q A ε α → σ
  | .done _ s => s
  | .await _ s _ => s

def result? : Turn σ Q A ε α → Option (Except ε α)
  | .done r _ => some r
  | .await .. => none

def bind : Turn σ Q A ε α → (α → Async σ Q A ε β) → Turn σ Q A ε β
  | .done (.ok a) s, f => f a s
  | .done (.error e) s, _ => .done (.error e) s
  | .await q s k, f => .await q s fun a s => (k a s).bind f

def catchWith : Turn σ Q A ε α → (ε → Async σ Q A ε α) → Turn σ Q A ε α
  | .done (.ok a) s, _ => .done (.ok a) s
  | .done (.error e) s, f => f e s
  | .await q s k, f => .await q s fun a s => (k a s).catchWith f

end Turn

namespace Async

instance : Monad (Async σ Q A ε) where
  pure a := fun s => .done (.ok a) s
  bind p f := fun s => (p s).bind f

instance : MonadExcept ε (Async σ Q A ε) where
  throw e := fun s => .done (.error e) s
  tryCatch p f := fun s => (p s).catchWith f

/-- Awaits the answer to `q`. -/
def await (q : Q) : Async σ Q A ε (A q) := fun s => .await q s fun a s => .done (.ok a) s

/-- A call of a function that does not await: it throws, or changes the store. -/
def sync (f : σ → Except ε (α × σ)) : Async σ Q A ε α := fun s =>
  match f s with
  | .ok (a, s') => .done (.ok a) s'
  | .error e => .done (.error e) s

/-- A call that leaves the store. -/
def read (f : σ → Except ε α) : Async σ Q A ε α := sync fun s => (f s).map (·, s)

/-- What does not depend on the store. -/
def lift (r : Except ε α) : Async σ Q A ε α := fun s => .done r s

end Async

/-! ## Guarantees -/

/-- Of the answers so far, each stretch from `s` that ends in awaiting `q` leaves a store that `G`
allows, if meanwhile the store changes by `R` only; `P` holds of the answers, the last stretch and
the result. -/
def Turn.Sat (R : σ → σ → Prop) (G : Answers Q A → σ → Q → σ → Prop)
    (P : Answers Q A → σ → Except ε α → σ → Prop) : Answers Q A → σ → Turn σ Q A ε α → Prop
  | h, s, .done r s' => P h s r s'
  | h, s, .await q s' k =>
    G h s q s' ∧ ∀ a t, R s' t → (k a t).Sat R G P (h ++ [⟨q, a⟩]) t

/-- `P` after `f` has run on. -/
def Turn.AndThen (R : σ → σ → Prop) (G : Answers Q A → σ → Q → σ → Prop)
    (P : Answers Q A → σ → Except ε β → σ → Prop) (f : α → Async σ Q A ε β) (h : Answers Q A)
    (s : σ) : Except ε α → σ → Prop
  | .ok a, s' => (f a s').Sat R G P h s
  | .error e, s' => P h s (.error e) s'

/-- `P` after `f` has handled the error. -/
def Turn.OrElse (R : σ → σ → Prop) (G : Answers Q A → σ → Q → σ → Prop)
    (P : Answers Q A → σ → Except ε α → σ → Prop) (f : ε → Async σ Q A ε α) (h : Answers Q A)
    (s : σ) : Except ε α → σ → Prop
  | .ok a, s' => P h s (.ok a) s'
  | .error e, s' => (f e s').Sat R G P h s

section Rules

variable {R : σ → σ → Prop} {G : Answers Q A → σ → Q → σ → Prop}
  {P : Answers Q A → σ → Except ε α → σ → Prop} {P' : Answers Q A → σ → Except ε β → σ → Prop}
  {h : Answers Q A} {s s' : σ}

theorem Turn.sat_bind {t : Turn σ Q A ε α} {f : α → Async σ Q A ε β} :
    (t.bind f).Sat R G P' h s ↔ t.Sat R G (Turn.AndThen R G P' f) h s := by
  induction t generalizing h s with
  | done r s' => cases r <;> exact Iff.rfl
  | await q s' k ih =>
    exact and_congr Iff.rfl (forall_congr' fun a => forall_congr' fun t =>
      forall_congr' fun _ => ih a t)

theorem Turn.sat_catchWith {t : Turn σ Q A ε α} {f : ε → Async σ Q A ε α} :
    (t.catchWith f).Sat R G P h s ↔ t.Sat R G (Turn.OrElse R G P f) h s := by
  induction t generalizing h s with
  | done r s' => cases r <;> exact Iff.rfl
  | await q s' k ih =>
    exact and_congr Iff.rfl (forall_congr' fun a => forall_congr' fun t =>
      forall_congr' fun _ => ih a t)

theorem Turn.Sat.mono {t : Turn σ Q A ε α} {P₁ : Answers Q A → σ → Except ε α → σ → Prop}
    (ht : t.Sat R G P h s) (hmono : ∀ h s r s', P h s r s' → P₁ h s r s') : t.Sat R G P₁ h s := by
  induction t generalizing h s with
  | done r s' => exact hmono _ _ _ _ ht
  | await q s' k ih => exact ⟨ht.1, fun a t hrely => ih a t (ht.2 a t hrely)⟩

namespace Async

theorem sat_bind {p : Async σ Q A ε α} {f : α → Async σ Q A ε β} :
    ((p >>= f) s').Sat R G P' h s ↔ (p s').Sat R G (Turn.AndThen R G P' f) h s := Turn.sat_bind

theorem sat_tryCatch {p : Async σ Q A ε α} {f : ε → Async σ Q A ε α} :
    ((tryCatch p f) s').Sat R G P h s ↔ (p s').Sat R G (Turn.OrElse R G P f) h s :=
  Turn.sat_catchWith

/-- The rule of sequences: the first part ends in `P`, from which the second goes on. -/
theorem sat_bind_of {p : Async σ Q A ε α} {f : α → Async σ Q A ε β} (hp : (p s').Sat R G P h s)
    (hf : ∀ h s a s', P h s (.ok a) s' → (f a s').Sat R G P' h s)
    (herror : ∀ h s e s', P h s (.error e) s' → P' h s (.error e) s') :
    ((p >>= f) s').Sat R G P' h s := by
  rw [sat_bind]
  refine hp.mono fun h s r s' hr => ?_
  cases r with
  | ok a => exact hf h s a s' hr
  | error e => exact herror h s e s' hr

theorem sat_tryCatch_of {P₁ : Answers Q A → σ → Except ε α → σ → Prop} {p : Async σ Q A ε α}
    {f : ε → Async σ Q A ε α} (hp : (p s').Sat R G P h s)
    (hok : ∀ h s a s', P h s (.ok a) s' → P₁ h s (.ok a) s')
    (hf : ∀ h s e s', P h s (.error e) s' → (f e s').Sat R G P₁ h s) :
    ((tryCatch p f) s').Sat R G P₁ h s := by
  rw [sat_tryCatch]
  refine hp.mono fun h s r s' hr => ?_
  cases r with
  | ok a => exact hok h s a s' hr
  | error e => exact hf h s e s' hr

theorem sat_pure_bind {a : α} {f : α → Async σ Q A ε β} :
    (((pure a : Async σ Q A ε α) >>= f) s').Sat R G P' h s ↔ (f a s').Sat R G P' h s := Iff.rfl

theorem sat_await_bind {q : Q} {f : A q → Async σ Q A ε β} :
    ((await q >>= f) s').Sat R G P' h s ↔
      G h s q s' ∧ ∀ a t, R s' t → (f a t).Sat R G P' (h ++ [⟨q, a⟩]) t := Iff.rfl

theorem sat_lift_bind {r : Except ε α} {f : α → Async σ Q A ε β} :
    ((lift r >>= f) s').Sat R G P' h s ↔
      (∀ a, r = .ok a → (f a s').Sat R G P' h s) ∧ ∀ e, r = .error e → P' h s (.error e) s' := by
  rw [sat_bind]
  cases r with
  | ok a =>
    constructor
    · intro hf
      refine ⟨fun a' ha => ?_, fun e he => ?_⟩
      · cases ha
        exact hf
      · cases he
    · intro hf
      exact hf.1 a rfl
  | error e =>
    constructor
    · intro hf
      refine ⟨fun a ha => ?_, fun e' he => ?_⟩
      · cases ha
      · cases he
        exact hf
    · intro hf
      exact hf.2 e rfl

theorem sat_sync {g : σ → Except ε (α × σ)} :
    ((sync g) s').Sat R G P h s ↔
      (∀ a s'', g s' = .ok (a, s'') → P h s (.ok a) s'') ∧
        ∀ e, g s' = .error e → P h s (.error e) s' := by
  unfold sync
  cases g s' with
  | ok out =>
    obtain ⟨a, s''⟩ := out
    simp [Turn.Sat]
  | error e => simp [Turn.Sat]

theorem sat_sync_bind {g : σ → Except ε (α × σ)} {f : α → Async σ Q A ε β} :
    ((sync g >>= f) s').Sat R G P' h s ↔
      (∀ a s'', g s' = .ok (a, s'') → (f a s'').Sat R G P' h s) ∧
        ∀ e, g s' = .error e → P' h s (.error e) s' := by
  rw [sat_bind]
  unfold sync
  cases hg : g s' with
  | ok out =>
    obtain ⟨a, s''⟩ := out
    constructor
    · intro hf
      refine ⟨fun a' t hout => ?_, fun e he => ?_⟩
      · cases hout
        exact hf
      · cases he
    · intro hf
      exact hf.1 a s'' rfl
  | error e =>
    constructor
    · intro hf
      refine ⟨fun a t hout => ?_, fun e' he => ?_⟩
      · cases hout
      · cases he
        exact hf
    · intro hf
      exact hf.2 e rfl

theorem sat_read_bind {g : σ → Except ε α} {f : α → Async σ Q A ε β} :
    ((read g >>= f) s').Sat R G P' h s ↔
      (∀ a, g s' = .ok a → (f a s').Sat R G P' h s) ∧
        ∀ e, g s' = .error e → P' h s (.error e) s' := by
  unfold read
  rw [sat_sync_bind]
  cases g s' with
  | ok a => simp [Except.map]
  | error e => simp [Except.map]

end Async

end Rules

/-! ## Many calls -/

/-- A call with its arguments, the answers it has had and where it is. -/
structure Call (ι σ Q : Type) (A : Q → Type) (ε α : Type) where
  args : ι
  answers : Answers Q A
  turn : Turn σ Q A ε α

/-- The calls, in the order they were made. -/
structure EventLoop (ι σ Q : Type) (A : Q → Type) (ε α : Type) where
  store : σ
  calls : List (Call ι σ Q A ε α)

namespace EventLoop

inductive Label (ι Q : Type) (A : Q → Type) (δ : Type) where
  /-- A new call. -/
  | call (args : ι)
  /-- A call gets its answer. -/
  | answer (i : Nat) (r : (q : Q) × A q)
  /-- The rest of the program acts on the store. -/
  | act (d : δ)

variable (fn : ι → Async σ Q A ε α) (env : δ → σ → σ)

inductive Step : EventLoop ι σ Q A ε α → Label ι Q A δ → EventLoop ι σ Q A ε α → Prop where
  | call (loop : EventLoop ι σ Q A ε α) (args : ι) :
      Step loop (.call args)
        { store := (fn args loop.store).store
          calls := loop.calls ++ [⟨args, [], fn args loop.store⟩] }
  | answer {loop : EventLoop ι σ Q A ε α} {i : Nat} {args : ι} {h : Answers Q A} {q : Q} {s : σ}
      {k : A q → σ → Turn σ Q A ε α} (hi : loop.calls[i]? = some ⟨args, h, .await q s k⟩) (a : A q) :
      Step loop (.answer i ⟨q, a⟩)
        { store := (k a loop.store).store
          calls := loop.calls.set i ⟨args, h ++ [⟨q, a⟩], k a loop.store⟩ }
  | act (loop : EventLoop ι σ Q A ε α) (d : δ) :
      Step loop (.act d) { loop with store := env d loop.store }

/-- The steps of a run meet the condition `C`. -/
inductive Run (C : EventLoop ι σ Q A ε α → Label ι Q A δ → Prop) (s₀ : σ) :
    List (Label ι Q A δ) → EventLoop ι σ Q A ε α → Prop where
  | start : Run C s₀ [] ⟨s₀, []⟩
  | step {labels : List (Label ι Q A δ)} {loop loop' : EventLoop ι σ Q A ε α} {l : Label ι Q A δ} :
      Run C s₀ labels loop → C loop l → Step fn env loop l loop' → Run C s₀ (labels ++ [l]) loop'

variable {fn env} {R : σ → σ → Prop} {G : Answers Q A → σ → Q → σ → Prop}
  {P : ι → Answers Q A → σ → Except ε α → σ → Prop} {s₀ : σ} {labels : List (Label ι Q A δ)}
  {C : EventLoop ι σ Q A ε α → Label ι Q A δ → Prop}
  {loop loop' : EventLoop ι σ Q A ε α} {l : Label ι Q A δ}

/-- The functions guarantee `G` and `P`, and all that happens to the store is allowed by `R`. -/
structure Guarantees (fn : ι → Async σ Q A ε α) (env : δ → σ → σ) (R : σ → σ → Prop)
    (G : Answers Q A → σ → Q → σ → Prop) (P : ι → Answers Q A → σ → Except ε α → σ → Prop) :
    Prop where
  sat : ∀ args s, (fn args s).Sat R G (P args) [] s
  refl : ∀ s, R s s
  trans : ∀ s t u, R s t → R t u → R s u
  await : ∀ h s q s', G h s q s' → R s s'
  done : ∀ args h s r s', P args h s r s' → R s s'
  act : ∀ d s, R s (env d s)

/-- The label starts a stretch of the call: it makes the call, or brings what it awaits. -/
def StartedBy (loop : EventLoop ι σ Q A ε α) (i : Nat) (call : Call ι σ Q A ε α) :
    Label ι Q A δ → Prop
  | .call args => loop.calls[i]? = none ∧ call.args = args ∧ call.answers = []
  | .answer j r => j = i ∧ ∃ old s k, loop.calls[i]? = some old ∧ old.turn = .await r.1 s k ∧
      call.args = old.args ∧ call.answers = old.answers ++ [r]
  | .act _ => False

/-- A stretch of a call that was not over: the call is as it should be from here on. -/
structure Stretch (R : σ → σ → Prop) (G : Answers Q A → σ → Q → σ → Prop)
    (P : ι → Answers Q A → σ → Except ε α → σ → Prop) (l : Label ι Q A δ)
    (loop loop' : EventLoop ι σ Q A ε α) (i : Nat) (call : Call ι σ Q A ε α) : Prop where
  started : StartedBy loop i call l
  self : loop'.calls[i]? = some call
  others : ∀ j, j ≠ i → loop'.calls[j]? = loop.calls[j]?
  store : loop'.store = call.turn.store
  sat : call.turn.Sat R G (P call.args) call.answers loop.store

/-- What is guaranteed of the rest of a call. -/
def Guaranteed (R : σ → σ → Prop) (G : Answers Q A → σ → Q → σ → Prop)
    (P : ι → Answers Q A → σ → Except ε α → σ → Prop) (s : σ) (call : Call ι σ Q A ε α) : Prop :=
  R call.turn.store s ∧ ∃ s, call.turn.Sat R G (P call.args) call.answers s

/-- A step is an act of the rest of the program, or a stretch of a call, whose arguments tell what
it guarantees. -/
theorem Step.cases_of {G : ι → Answers Q A → σ → Q → σ → Prop}
    (hfn : ∀ args s, (fn args s).Sat R (G args) (P args) [] s) (hstep : Step fn env loop l loop')
    (h : ∀ call ∈ loop.calls, Guaranteed R (G call.args) P loop.store call) :
    (∃ d, l = .act d ∧ loop' = { loop with store := env d loop.store }) ∨
      ∃ i call, Stretch R (G call.args) P l loop loop' i call := by
  cases hstep with
  | call args =>
    refine .inr ⟨loop.calls.length, ⟨args, [], fn args loop.store⟩, ⟨?_, rfl, rfl⟩, ?_, ?_, rfl,
      hfn args loop.store⟩
    · exact List.getElem?_eq_none (le_refl _)
    · exact List.getElem?_concat_length
    · intro j hj
      rcases Nat.lt_or_gt_of_ne hj with hlt | hgt
      · exact List.getElem?_append_left hlt
      · rw [List.getElem?_eq_none (by simp; omega), List.getElem?_eq_none (by omega)]
  | @answer i args answers q s k hi a =>
    obtain ⟨hrely, t, hsat⟩ := h _ (List.mem_of_getElem? hi)
    refine .inr ⟨i, ⟨args, answers ++ [⟨q, a⟩], k a loop.store⟩,
      ⟨rfl, _, s, k, hi, rfl, rfl, rfl⟩, ?_, ?_, rfl, hsat.2 a loop.store hrely⟩
    · exact List.getElem?_set_self (List.getElem?_eq_some_iff.1 hi).1
    · intro j hj
      exact List.getElem?_set_ne (Ne.symm hj)
  | act d => exact .inl ⟨d, rfl, rfl⟩

theorem Step.cases (hfn : Guarantees fn env R G P) (hstep : Step fn env loop l loop')
    (h : ∀ call ∈ loop.calls, Guaranteed R G P loop.store call) :
    (∃ d, l = .act d ∧ loop' = { loop with store := env d loop.store }) ∨
      ∃ i call, Stretch R G P l loop loop' i call :=
  hstep.cases_of (G := fun _ => G) hfn.sat h

variable {i : Nat} {call : Call ι σ Q A ε α}

theorem Stretch.rely (hfn : Guarantees fn env R G P) (h : Stretch R G P l loop loop' i call) :
    R loop.store loop'.store := by
  have hsat := h.sat
  rw [h.store]
  generalize call.turn = turn at hsat
  cases turn with
  | await q s k => exact hfn.await _ _ _ _ hsat.1
  | done r s => exact hfn.done _ _ _ _ _ hsat

theorem Stretch.result?_eq_none (h : Stretch R G P l loop loop' i call) {old : Call ι σ Q A ε α}
    (hold : loop.calls[i]? = some old) : old.turn.result? = none := by
  have hstarted := h.started
  cases l with
  | call args =>
    rw [hstarted.1] at hold
    cases hold
  | answer j r =>
    obtain ⟨-, old', s, k, hold', hturn, -⟩ := hstarted
    rw [hold] at hold'
    cases hold'
    rw [hturn]
    rfl
  | act d => exact hstarted.elim

theorem Stretch.mem_calls (h : Stretch R G P l loop loop' i call) {other : Call ι σ Q A ε α}
    (hother : other ∈ loop'.calls) : other = call ∨ other ∈ loop.calls := by
  obtain ⟨j, hj⟩ := List.mem_iff_getElem?.1 hother
  by_cases heq : j = i
  · subst heq
    rw [h.self] at hj
    exact .inl (Option.some.inj hj).symm
  · rw [h.others j heq] at hj
    exact .inr (List.mem_of_getElem? hj)

theorem Step.rely (hfn : Guarantees fn env R G P) (hstep : Step fn env loop l loop')
    (h : ∀ call ∈ loop.calls, Guaranteed R G P loop.store call) : R loop.store loop'.store := by
  rcases hstep.cases hfn h with ⟨d, rfl, rfl⟩ | ⟨i, call, hstretch⟩
  · exact hfn.act d loop.store
  · exact hstretch.rely hfn

theorem Step.guaranteed (hfn : Guarantees fn env R G P) (hstep : Step fn env loop l loop')
    (h : ∀ call ∈ loop.calls, Guaranteed R G P loop.store call) :
    ∀ call ∈ loop'.calls, Guaranteed R G P loop'.store call := by
  have hrely := hstep.rely hfn h
  intro call hcall
  rcases hstep.cases hfn h with ⟨d, rfl, rfl⟩ | ⟨i, call', hstretch⟩
  · obtain ⟨hbefore, hsat⟩ := h call hcall
    exact ⟨hfn.trans _ _ _ hbefore hrely, hsat⟩
  · rcases hstretch.mem_calls hcall with rfl | hcall
    · refine ⟨?_, loop.store, hstretch.sat⟩
      rw [hstretch.store]
      exact hfn.refl _
    · obtain ⟨hbefore, hsat⟩ := h call hcall
      exact ⟨hfn.trans _ _ _ hbefore hrely, hsat⟩

theorem Run.guaranteed (hfn : Guarantees fn env R G P) (hrun : Run fn env C s₀ labels loop) :
    ∀ call ∈ loop.calls, Guaranteed R G P loop.store call := by
  induction hrun with
  | start =>
    intro call hcall
    cases hcall
  | step _ _ hstep ih => exact hstep.guaranteed hfn ih

theorem Run.result_sat (hfn : Guarantees fn env R G P) (hrun : Run fn env C s₀ labels loop)
    (hcall : call ∈ loop.calls) {r : Except ε α} (hr : call.turn.result? = some r) :
    ∃ s s', P call.args call.answers s r s' := by
  obtain ⟨-, s, hsat⟩ := hrun.guaranteed hfn call hcall
  generalize call.turn = turn at hr hsat
  cases turn with
  | await q s k => cases hr
  | done r' s' =>
    cases hr
    exact ⟨s, s', hsat⟩

/-! ## One answer to each query -/

/-- What is next: a new call, a stretch of a call, or the rest of the program. -/
inductive Event (ι δ : Type) where
  | call (args : ι)
  | resume (i : Nat)
  | act (d : δ)

variable (fn env) in
/-- Runs the events; a call that awaits nothing stays. -/
def exec (node : (q : Q) → A q) :
    List (Event ι δ) → EventLoop ι σ Q A ε α → List (Label ι Q A δ) × EventLoop ι σ Q A ε α
  | [], loop => ([], loop)
  | .call args :: events, loop =>
    let rest := exec node events
      { store := (fn args loop.store).store
        calls := loop.calls ++ [⟨args, [], fn args loop.store⟩] }
    (.call args :: rest.1, rest.2)
  | .resume i :: events, loop =>
    match loop.calls[i]? with
    | some ⟨args, h, .await q _ k⟩ =>
      let rest := exec node events
        { store := (k (node q) loop.store).store
          calls := loop.calls.set i ⟨args, h ++ [⟨q, node q⟩], k (node q) loop.store⟩ }
      (.answer i ⟨q, node q⟩ :: rest.1, rest.2)
    | _ => exec node events loop
  | .act d :: events, loop =>
    let rest := exec node events { loop with store := env d loop.store }
    (.act d :: rest.1, rest.2)

/-- The events are a run, if the condition allows every call and act and the answers. -/
theorem Run.exec {node : (q : Q) → A q} (hcall : ∀ loop args, C loop (.call args))
    (hanswer : ∀ loop i q, C loop (.answer i ⟨q, node q⟩)) (hact : ∀ loop d, C loop (.act d))
    (hrun : Run fn env C s₀ labels loop) (events : List (Event ι δ)) :
    Run fn env C s₀ (labels ++ (exec fn env node events loop).1)
      (exec fn env node events loop).2 := by
  induction events generalizing labels loop with
  | nil => simpa [EventLoop.exec] using hrun
  | cons event events ih =>
    cases event with
    | call args =>
      have hnext := ih (hrun.step (hcall loop args) (.call loop args))
      rwa [List.append_assoc] at hnext
    | act d =>
      have hnext := ih (hrun.step (hact loop d) (.act loop d))
      rwa [List.append_assoc] at hnext
    | resume i =>
      unfold EventLoop.exec
      split
      · next args h q s k hi =>
        have hnext := ih (hrun.step (hanswer loop i q) (.answer hi (node q)))
        rwa [List.append_assoc] at hnext
      · exact ih hrun

theorem Run.answered (node : (q : Q) → A q) (events : List (Event ι δ)) :
    Run fn env (fun _ _ => True) s₀ (EventLoop.exec fn env node events ⟨s₀, []⟩).1
      (EventLoop.exec fn env node events ⟨s₀, []⟩).2 :=
  Run.exec (fun _ _ => trivial) (fun _ _ _ => trivial) (fun _ _ => trivial) .start events

end EventLoop

end Lodestar.Base
