import Mathlib.Tactic

/-!
# Asynchronous programs over a shared store

`Prog Op Resp ε α` is an async function: it returns, throws, or awaits one
store operation `o` and continues with the answer. Everything between two
awaits is one atomic step, so a `Prog` says exactly where a run can be
interrupted. `Prog.run` is the run of one program alone; `Exec p tr r` is a
run seen from inside, as the list `tr` of operations with the answers it got,
and holds of whatever the store did in between.
-/

namespace Lodestar.Base

/-- An async function awaiting the operations `Op` of a store. -/
inductive Prog (Op : Type) (Resp : Op → Type) (ε α : Type) where
  | ret (a : α)
  | raise (e : ε)
  | await (o : Op) (k : Resp o → Prog Op Resp ε α)

/-- An awaited operation and its answer. -/
abbrev Event (Op : Type) (Resp : Op → Type) := (o : Op) × Resp o

namespace Prog

variable {Op : Type} {Resp : Op → Type} {ε α β σ : Type}

def bind : Prog Op Resp ε α → (α → Prog Op Resp ε β) → Prog Op Resp ε β
  | .ret a, f => f a
  | .raise e, _ => .raise e
  | .await o k, f => .await o fun r => (k r).bind f

/-- `try { p } catch (e) { h e }`. -/
def catchWith : Prog Op Resp ε α → (ε → Prog Op Resp ε α) → Prog Op Resp ε α
  | .ret a, _ => .ret a
  | .raise e, h => h e
  | .await o k, h => .await o fun r => (k r).catchWith h

/-- The same program, its errors renamed. -/
def mapError {ε' : Type} (f : ε → ε') : Prog Op Resp ε α → Prog Op Resp ε' α
  | .ret a => .ret a
  | .raise e => .raise (f e)
  | .await o k => .await o fun r => (k r).mapError f

/-- Awaits one operation. -/
def op (o : Op) : Prog Op Resp ε (Resp o) := .await o .ret

instance : Monad (Prog Op Resp ε) where
  pure := .ret
  bind := bind

theorem mapError_bind {ε' : Type} (g : ε → ε') (p : Prog Op Resp ε α)
    (f : α → Prog Op Resp ε β) :
    (p >>= f).mapError g = p.mapError g >>= fun a => (f a).mapError g := by
  show (p.bind f).mapError g = (p.mapError g).bind _
  induction p with
  | ret a => rfl
  | raise e => rfl
  | await o k ih => exact congrArg (Prog.await o) (funext ih)

instance : MonadExcept ε (Prog Op Resp ε) where
  throw := .raise
  tryCatch := catchWith

/-! ## Running alone -/

/-- The run of `p` with nothing else touching the store. -/
def run (act : (o : Op) → σ → Resp o × σ) : Prog Op Resp ε α → σ → Except ε α × σ
  | .ret a, s => (.ok a, s)
  | .raise e, s => (.error e, s)
  | .await o k, s => (k (act o s).1).run act (act o s).2

variable {act : (o : Op) → σ → Resp o × σ}

@[simp] theorem run_pure (a : α) (s : σ) :
    (pure a : Prog Op Resp ε α).run act s = (.ok a, s) := rfl

@[simp] theorem run_throw (e : ε) (s : σ) :
    (throw e : Prog Op Resp ε α).run act s = (.error e, s) := rfl

theorem run_bind (p : Prog Op Resp ε α) (f : α → Prog Op Resp ε β) (s : σ) :
    (p >>= f).run act s = match p.run act s with
      | (.ok a, s') => (f a).run act s'
      | (.error e, s') => (.error e, s') := by
  show (p.bind f).run act s = _
  induction p generalizing s with
  | ret a => rfl
  | raise e => rfl
  | await o k ih => exact ih _ _

theorem run_bind_ok {p : Prog Op Resp ε α} {f : α → Prog Op Resp ε β} {s s' : σ} {a : α}
    (h : p.run act s = (.ok a, s')) : (p >>= f).run act s = (f a).run act s' := by
  rw [run_bind, h]

theorem run_bind_error {p : Prog Op Resp ε α} {f : α → Prog Op Resp ε β} {s s' : σ} {e : ε}
    (h : p.run act s = (.error e, s')) : (p >>= f).run act s = (.error e, s') := by
  rw [run_bind, h]

theorem run_tryCatch (p : Prog Op Resp ε α) (h : ε → Prog Op Resp ε α) (s : σ) :
    (tryCatch p h).run act s = match p.run act s with
      | (.ok a, s') => (.ok a, s')
      | (.error e, s') => (h e).run act s' := by
  show (p.catchWith h).run act s = _
  induction p generalizing s with
  | ret a => rfl
  | raise e => rfl
  | await o k ih => exact ih _ _

theorem run_mapError {ε' : Type} (f : ε → ε') (p : Prog Op Resp ε α) (s : σ) :
    (p.mapError f).run act s = ((p.run act s).1.mapError f, (p.run act s).2) := by
  induction p generalizing s with
  | ret a => rfl
  | raise e => rfl
  | await o k ih => exact ih _ _

/-! ## One store in place of another -/

/-- Whatever the answers, only operations in `P` are awaited. -/
def Issues (P : Op → Prop) : Prog Op Resp ε α → Prop
  | .ret _ => True
  | .raise _ => True
  | .await o k => P o ∧ ∀ r, (k r).Issues P

@[simp] theorem issues_op (P : Op → Prop) (o : Op) :
    (op o : Prog Op Resp ε (Resp o)).Issues P ↔ P o := by
  simp [op, Issues]

theorem issues_bind {P : Op → Prop} {p : Prog Op Resp ε α} {f : α → Prog Op Resp ε β}
    (hp : p.Issues P) (hf : ∀ a, (f a).Issues P) : (p >>= f).Issues P := by
  show (p.bind f).Issues P
  induction p with
  | ret a => exact hf a
  | raise e => trivial
  | await o k ih => exact ⟨hp.1, fun r => ih r (hp.2 r)⟩

theorem issues_op_bind {P : Op → Prop} {o : Op} {f : Resp o → Prog Op Resp ε α} (ho : P o)
    (hf : ∀ r, (f r).Issues P) : (op o >>= f).Issues P := ⟨ho, hf⟩

theorem issues_tryCatch {P : Op → Prop} {p : Prog Op Resp ε α} {h : ε → Prog Op Resp ε α}
    (hp : p.Issues P) (hh : ∀ e, (h e).Issues P) : (tryCatch p h).Issues P := by
  show (p.catchWith h).Issues P
  induction p with
  | ret a => trivial
  | raise e => exact hh e
  | await o k ih => exact ⟨hp.1, fun r => ih r (hp.2 r)⟩

theorem issues_mapError {ε' : Type} {P : Op → Prop} {f : ε → ε'} {p : Prog Op Resp ε α}
    (hp : p.Issues P) : (p.mapError f).Issues P := by
  induction p with
  | ret a => trivial
  | raise e => trivial
  | await o k ih => exact ⟨hp.1, fun r => ih r (hp.2 r)⟩

theorem run_keeps {P : Op → Prop} {K : σ → Prop} (hact : ∀ o s, P o → K s → K (act o s).2)
    {p : Prog Op Resp ε α} (hp : p.Issues P) {s : σ} (h : K s) : K (p.run act s).2 := by
  induction p generalizing s with
  | ret a => exact h
  | raise e => exact h
  | await o k ih => exact ih _ (hp.2 _) (hact o s hp.1 h)

/-- When each operation in `P` answers alike on related stores and leaves them related, so does a
program that awaits no others. -/
theorem run_refines {τ : Type} {P : Op → Prop} {R : σ → τ → Prop}
    {act' : (o : Op) → τ → Resp o × τ}
    (hact : ∀ o s t, P o → R s t → (act o s).1 = (act' o t).1 ∧ R (act o s).2 (act' o t).2)
    {p : Prog Op Resp ε α} (hp : p.Issues P) {s : σ} {t : τ} (hR : R s t) :
    (p.run act s).1 = (p.run act' t).1 ∧ R (p.run act s).2 (p.run act' t).2 := by
  induction p generalizing s t with
  | ret a => exact ⟨rfl, hR⟩
  | raise e => exact ⟨rfl, hR⟩
  | await o k ih =>
    obtain ⟨hr, hR'⟩ := hact o s t hp.1 hR
    show ((k _).run act _).1 = ((k _).run act' _).1 ∧ R ((k _).run act _).2 ((k _).run act' _).2
    rw [hr]
    exact ih _ (hp.2 _) hR'

/-! ## Runs seen from inside -/

/-- `p` ends with `r` when its operations get the answers in `tr`. -/
inductive Exec : Prog Op Resp ε α → List (Event Op Resp) → Except ε α → Prop where
  | ret (a : α) : Exec (.ret a) [] (.ok a)
  | raise (e : ε) : Exec (.raise e) [] (.error e)
  | await {o : Op} {k : Resp o → Prog Op Resp ε α} {r : Resp o} {tr : List (Event Op Resp)}
      {res : Except ε α} : Exec (k r) tr res → Exec (.await o k) (⟨o, r⟩ :: tr) res

/-- Nothing is left to await. -/
def isDone : Prog Op Resp ε α → Bool
  | .await .. => false
  | _ => true

theorem exec_of_isDone {p : Prog Op Resp ε α} (h : p.isDone = true) : ∃ r, Exec p [] r := by
  cases p with
  | ret a => exact ⟨_, .ret a⟩
  | raise e => exact ⟨_, .raise e⟩
  | await o k => cases h

theorem exec_ret {a : α} {tr : List (Event Op Resp)} {r : Except ε α} :
    Exec (.ret a) tr r ↔ tr = [] ∧ r = .ok a := by
  constructor
  · rintro ⟨⟩; exact ⟨rfl, rfl⟩
  · rintro ⟨rfl, rfl⟩; exact .ret a

theorem exec_pure {a : α} {tr : List (Event Op Resp)} {r : Except ε α} :
    Exec (pure a) tr r ↔ tr = [] ∧ r = .ok a := exec_ret

theorem exec_throw {e : ε} {tr : List (Event Op Resp)} {r : Except ε α} :
    Exec (throw e) tr r ↔ tr = [] ∧ r = .error e := by
  constructor
  · intro h; cases h; exact ⟨rfl, rfl⟩
  · rintro ⟨rfl, rfl⟩; exact .raise e

theorem exec_op {o : Op} {tr : List (Event Op Resp)} {r : Except ε (Resp o)} :
    Exec (op o) tr r ↔ ∃ x, tr = [⟨o, x⟩] ∧ r = .ok x := by
  constructor
  · rintro (_ | _ | h); obtain ⟨rfl, rfl⟩ := exec_ret.1 h; exact ⟨_, rfl, rfl⟩
  · rintro ⟨x, rfl, rfl⟩; exact .await (.ret x)

theorem exec_bind_ok {p : Prog Op Resp ε α} {f : α → Prog Op Resp ε β}
    {tr : List (Event Op Resp)} {b : β} :
    Exec (p >>= f) tr (.ok b) ↔
      ∃ t₁ t₂ a, tr = t₁ ++ t₂ ∧ Exec p t₁ (.ok a) ∧ Exec (f a) t₂ (.ok b) := by
  show Exec (p.bind f) tr (.ok b) ↔ _
  induction p generalizing tr with
  | ret a =>
    simp only [bind, exec_ret]
    constructor
    · intro h; exact ⟨[], tr, a, rfl, ⟨rfl, rfl⟩, h⟩
    · rintro ⟨t₁, t₂, a', rfl, ⟨rfl, h⟩, h'⟩; cases h; exact h'
  | raise e =>
    constructor
    · rintro ⟨⟩
    · rintro ⟨t₁, t₂, a, rfl, h, -⟩; cases h
  | await o k ih =>
    constructor
    · rintro (_ | _ | h)
      obtain ⟨t₁, t₂, a, rfl, h₁, h₂⟩ := (ih _).1 h
      exact ⟨_ :: t₁, t₂, a, rfl, .await h₁, h₂⟩
    · rintro ⟨t₁, t₂, a, rfl, h₁, h₂⟩
      cases h₁ with
      | await h₁ => exact .await ((ih _).2 ⟨_, t₂, a, rfl, h₁, h₂⟩)

/-- A run of `p >>= f` ends in `p`, which throws, or is one of `p` followed by one of `f`. -/
theorem exec_bind {p : Prog Op Resp ε α} {f : α → Prog Op Resp ε β} {tr : List (Event Op Resp)}
    {r : Except ε β} (h : Exec (p >>= f) tr r) :
    (∃ t₁ t₂ a, tr = t₁ ++ t₂ ∧ Exec p t₁ (.ok a) ∧ Exec (f a) t₂ r) ∨
      ∃ e, r = .error e ∧ Exec p tr (.error e) := by
  change Exec (p.bind f) tr r at h
  induction p generalizing tr with
  | ret a => exact .inl ⟨[], tr, a, rfl, .ret a, h⟩
  | raise e =>
    cases h
    exact .inr ⟨e, rfl, .raise e⟩
  | await o k ih =>
    rcases h with _ | _ | h
    rcases ih _ h with ⟨t₁, t₂, a, rfl, h₁, h₂⟩ | ⟨e, rfl, h₁⟩
    · exact .inl ⟨_ :: t₁, t₂, a, rfl, .await h₁, h₂⟩
    · exact .inr ⟨e, rfl, .await h₁⟩

theorem exec_op_bind {o : Op} {f : Resp o → Prog Op Resp ε α} {tr : List (Event Op Resp)}
    {r : Except ε α} (h : Exec (op o >>= f) tr r) :
    ∃ x t, tr = ⟨o, x⟩ :: t ∧ Exec (f x) t r := by
  rcases h with _ | _ | h
  exact ⟨_, _, rfl, h⟩

theorem exec_op_bind_ok {o : Op} {f : Resp o → Prog Op Resp ε β} {tr : List (Event Op Resp)}
    {b : β} (h : Exec (op o >>= f) tr (.ok b)) : ∃ r t, tr = ⟨o, r⟩ :: t ∧ Exec (f r) t (.ok b) := by
  obtain ⟨t₁, t₂, r, rfl, h₁, h₂⟩ := exec_bind_ok.1 h
  obtain ⟨r', rfl, hr⟩ := exec_op.1 h₁
  cases hr
  exact ⟨r, t₂, rfl, h₂⟩

theorem exec_tryCatch_ok {p : Prog Op Resp ε α} {h : ε → Prog Op Resp ε α}
    (hh : ∀ e tr a, ¬ Exec (h e) tr (.ok a)) {tr : List (Event Op Resp)} {a : α} :
    Exec (tryCatch p h) tr (.ok a) ↔ Exec p tr (.ok a) := by
  show Exec (p.catchWith h) tr (.ok a) ↔ _
  induction p generalizing tr with
  | ret b => rfl
  | raise e =>
    constructor
    · intro he; exact (hh _ _ _ he).elim
    · rintro ⟨⟩
  | await o k ih =>
    constructor <;> rintro (_ | _ | he)
    · exact .await ((ih _).1 he)
    · exact .await ((ih _).2 he)

end Prog

end Lodestar.Base
