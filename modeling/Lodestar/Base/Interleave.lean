import Lodestar.Base.Prog

/-!
# Interleavings of concurrent programs

`Conf` is a set of programs running on one store together with the operations
carried out so far. A schedule names, turn by turn, the program whose awaited
operation takes effect next (a finished program passes its turn). Each program
has seen a run of its own (`exec_of_ret`), and every answer is the store's at
that moment (`answer_of_mem`).
-/

namespace Lodestar.Base

variable {ι Op : Type} {Resp : Op → Type} {ε α σ : Type}

/-- Programs on one store; `trace` lists what they did, oldest first. -/
structure Conf (ι Op : Type) (Resp : Op → Type) (ε α σ : Type) where
  thread : ι → Prog Op Resp ε α
  store : σ
  trace : List (ι × Event Op Resp)

namespace Conf

/-- Nothing has run yet. -/
def start (p : ι → Prog Op Resp ε α) (s : σ) : Conf ι Op Resp ε α σ := ⟨p, s, []⟩

/-- The turn of `i`: its awaited operation takes effect and it runs to its next await. -/
def step [DecidableEq ι] (act : (o : Op) → σ → Resp o × σ) (c : Conf ι Op Resp ε α σ) (i : ι) :
    Conf ι Op Resp ε α σ :=
  match c.thread i with
  | .await o k =>
    { thread := Function.update c.thread i (k (act o c.store).1)
      store := (act o c.store).2
      trace := c.trace ++ [(i, ⟨o, (act o c.store).1⟩)] }
  | _ => c

/-- The run of a schedule. -/
def exec [DecidableEq ι] (act : (o : Op) → σ → Resp o × σ) (sched : List ι) (c : Conf ι Op Resp ε α σ) :
    Conf ι Op Resp ε α σ := sched.foldl (step act) c

/-- What `i` did and saw. -/
def view [DecidableEq ι] (tr : List (ι × Event Op Resp)) (i : ι) : List (Event Op Resp) :=
  (tr.filter (·.1 = i)).map (·.2)

/-- The store after the operations `tr`. -/
def storeAfter (act : (o : Op) → σ → Resp o × σ) (s : σ) (tr : List (ι × Event Op Resp)) : σ :=
  tr.foldl (fun s e => (act e.2.1 s).2) s

variable {act : (o : Op) → σ → Resp o × σ}

variable (act) in
/-- A cell of the store that an operation either leaves or sets to one of the values `W` gives it:
afterwards it holds a value that some operation put there, or none did and it is unchanged. -/
theorem storeAfter_cases {β : Type} (get : σ → Option β) (W : Op → β → Prop)
    (hop : ∀ o s, (∃ v, W o v ∧ get (act o s).2 = some v) ∨
      ((∀ v, ¬ W o v) ∧ get (act o s).2 = get s))
    (s : σ) (tr : List (ι × Event Op Resp)) :
    (∃ x ∈ tr, ∃ v, W x.2.1 v ∧ get (storeAfter act s tr) = some v) ∨
      ((∀ x ∈ tr, ∀ v, ¬ W x.2.1 v) ∧ get (storeAfter act s tr) = get s) := by
  induction tr using List.reverseRecOn with
  | nil => exact .inr ⟨by simp, rfl⟩
  | append_singleton tr x ih =>
    have hstore : storeAfter act s (tr ++ [x]) = (act x.2.1 (storeAfter act s tr)).2 := by
      simp [storeAfter]
    rw [hstore]
    rcases hop x.2.1 (storeAfter act s tr) with ⟨v, hv, hget⟩ | ⟨hno, hget⟩
    · exact .inl ⟨x, by simp, v, hv, hget⟩
    · rw [hget]
      rcases ih with ⟨y, hy, v, hv, hgety⟩ | ⟨hnone, hgets⟩
      · exact .inl ⟨y, by simp [hy], v, hv, hgety⟩
      · refine .inr ⟨fun y hy => ?_, hgets⟩
        rcases List.mem_append.1 hy with hy | hy
        · exact hnone y hy
        · rw [List.mem_singleton.1 hy]
          exact hno

/-- An operation satisfying `P` comes before one satisfying `Q`. -/
def Before (tr : List (ι × Event Op Resp)) (P Q : ι × Event Op Resp → Prop) : Prop :=
  ∃ t₁ y t₂, tr = t₁ ++ y :: t₂ ∧ Q y ∧ ∃ x ∈ t₁, P x

section

variable [DecidableEq ι]

@[simp] theorem view_nil (i : ι) : view ([] : List (ι × Event Op Resp)) i = [] := rfl

theorem view_append (t₁ t₂ : List (ι × Event Op Resp)) (i : ι) :
    view (t₁ ++ t₂) i = view t₁ i ++ view t₂ i := by
  simp [view]

@[simp] theorem view_cons_self (i : ι) (e : Event Op Resp) (t : List (ι × Event Op Resp)) :
    view ((i, e) :: t) i = e :: view t i := by
  simp [view]

theorem view_cons_ne {i j : ι} (h : j ≠ i) (e : Event Op Resp) (t : List (ι × Event Op Resp)) :
    view ((j, e) :: t) i = view t i := by
  simp [view, h]

theorem mem_view {tr : List (ι × Event Op Resp)} {i : ι} {e : Event Op Resp} :
    e ∈ view tr i ↔ (i, e) ∈ tr := by
  simp [view]

theorem step_await {c : Conf ι Op Resp ε α σ} {i : ι} {o : Op} {k : Resp o → Prog Op Resp ε α}
    (h : c.thread i = .await o k) : c.step act i =
      { thread := Function.update c.thread i (k (act o c.store).1)
        store := (act o c.store).2
        trace := c.trace ++ [(i, ⟨o, (act o c.store).1⟩)] } := by
  unfold step; rw [h]

variable (act) in
theorem step_cases (c : Conf ι Op Resp ε α σ) (i : ι) :
    (∃ o k, c.thread i = .await o k) ∨ c.step act i = c := by
  cases h : c.thread i with
  | await o k => exact .inl ⟨o, k, rfl⟩
  | ret a => right; unfold step; rw [h]
  | raise e => right; unfold step; rw [h]

/-- `c` is a point of the run of the programs `p` from `s`: the trace is the store's own, and
whatever is left of a program completes what it has done to a run of the whole. -/
structure Point (act : (o : Op) → σ → Resp o × σ) (p : ι → Prog Op Resp ε α) (s : σ)
    (c : Conf ι Op Resp ε α σ) : Prop where
  store : c.store = storeAfter act s c.trace
  answer : ∀ t₁ i e t₂, c.trace = t₁ ++ (i, e) :: t₂ → e.2 = (act e.1 (storeAfter act s t₁)).1
  rest : ∀ i tr r, Prog.Exec (c.thread i) tr r → Prog.Exec (p i) (view c.trace i ++ tr) r

theorem Point.start (p : ι → Prog Op Resp ε α) (s : σ) : Point act p s (Conf.start p s) where
  store := rfl
  answer := by intro t₁ i e t₂ h; cases t₁ <;> cases h
  rest := fun i tr r h => h

theorem Point.step {p : ι → Prog Op Resp ε α} {s : σ} {c : Conf ι Op Resp ε α σ}
    (h : Point act p s c) (i : ι) : Point act p s (c.step act i) := by
  rcases c.step_cases act i with ⟨o, k, hi⟩ | hc
  · rw [step_await hi]
    refine ⟨?_, ?_, ?_⟩
    · show _ = storeAfter act s (c.trace ++ _)
      simp only [storeAfter, List.foldl_append, List.foldl_cons, List.foldl_nil]
      rw [h.store]; rfl
    · intro t₁ j e t₂ heq
      rcases List.eq_nil_or_concat t₂ with rfl | ⟨t₂', x, rfl⟩
      · obtain ⟨rfl, hlast⟩ := List.append_inj' heq rfl
        cases hlast
        rw [h.store]
      · rw [List.concat_eq_append, ← List.cons_append, ← List.append_assoc] at heq
        obtain ⟨hinit, -⟩ := List.append_inj' heq rfl
        exact h.answer _ _ _ _ hinit
    · intro j tr r hj
      by_cases hji : j = i
      · subst hji
        simp only [Function.update_self] at hj
        have := h.rest j _ r (hi ▸ Prog.Exec.await hj)
        simpa [view_append] using this
      · simp only [Function.update_of_ne hji] at hj
        have := h.rest j _ r hj
        rw [view_append, view_cons_ne (Ne.symm hji)]
        simpa using this
  · rw [hc]; exact h

/-- Every schedule leads to a point of the run. -/
theorem Point.exec {p : ι → Prog Op Resp ε α} {s : σ} (sched : List ι) :
    Point act p s (Conf.exec act sched (Conf.start p s)) := by
  suffices ∀ c, Point act p s c → Point act p s (Conf.exec act sched c) from this _ (.start p s)
  induction sched with
  | nil => exact fun c h => h
  | cons i sched ih => exact fun c h => ih _ (h.step i)

theorem Point.exec_of_ret {p : ι → Prog Op Resp ε α} {s : σ} {c : Conf ι Op Resp ε α σ}
    (h : Point act p s c) {i : ι} {a : α} (hi : c.thread i = .ret a) :
    Prog.Exec (p i) (view c.trace i) (.ok a) := by
  have := h.rest i [] (.ok a) (hi ▸ .ret a)
  simpa using this

end

end Conf

/-! ## Runs in which one task gets its turns

`P n` bounds the turns that a task still needs. If a turn of the task takes one
off and the other steps do not add any, the task is done in every run that gives
it so many turns, whatever happens in between. -/

section Turns

variable [DecidableEq ι] {next : σ → ι → σ} {P : Nat → σ → Prop} {turn : ι}

theorem foldl_of_turns (hturn : ∀ n s, P n s → P (n - 1) (next s turn))
    (hother : ∀ n s i, i ≠ turn → P n s → P n (next s i)) {n : Nat} {s : σ} {steps : List ι}
    (hn : n ≤ steps.count turn) (h : P n s) : P 0 (steps.foldl next s) := by
  induction steps generalizing n s with
  | nil =>
    obtain rfl : n = 0 := by simpa using hn
    exact h
  | cons i steps ih =>
    by_cases hi : i = turn
    · subst hi
      rw [List.count_cons_self] at hn
      exact ih (n := n - 1) (by omega) (hturn n s h)
    · rw [List.count_cons_of_ne hi] at hn
      exact ih hn (hother n s i hi h)

end Turns

end Lodestar.Base
