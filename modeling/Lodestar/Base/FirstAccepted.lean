import Lodestar.Base.Async

/-!
# Calls that are accepted

Each call of an async function has a key, that of its arguments, and is accepted
when it returns. If a stretch accepts a call only when none with its key has
been accepted, each key is accepted once (`AcceptedOnce`).
-/

namespace Lodestar.Base.EventLoop

variable {σ Q : Type} {A : Q → Type} {ε α ι δ κ : Type}

/-- The call has returned, for the key. -/
def Accepted (key : ι → κ) (loop : EventLoop ι σ Q A ε α) (i : Nat) (k : κ) : Prop :=
  ∃ call result, loop.calls[i]? = some call ∧ call.turn.result? = some (.ok result) ∧
    key call.args = k

def AcceptedOnce (key : ι → κ) (loop : EventLoop ι σ Q A ε α) : Prop :=
  ∀ i j k, Accepted key loop i k → Accepted key loop j k → i = j

/-- The keys of the calls, where they have returned. -/
def acceptedKeys (key : ι → κ) (loop : EventLoop ι σ Q A ε α) : List (Option κ) :=
  loop.calls.map fun call => call.turn.result?.bind fun r => r.toOption.map fun _ => key call.args

variable {fn : ι → Async σ Q A ε α} {env : δ → σ → σ} {key : ι → κ} {R : σ → σ → Prop}
  {G : ι → Answers Q A → σ → Q → σ → Prop} {G' : Answers Q A → σ → Q → σ → Prop}
  {P : ι → Answers Q A → σ → Except ε α → σ → Prop} {s₀ : σ} {labels : List (Label ι Q A δ)}
  {C : EventLoop ι σ Q A ε α → Label ι Q A δ → Prop} {loop loop' : EventLoop ι σ Q A ε α}
  {l : Label ι Q A δ} {i j : Nat} {call : Call ι σ Q A ε α} {k : κ}

theorem not_accepted_nil (s : σ) : ¬ Accepted key (⟨s, []⟩ : EventLoop ι σ Q A ε α) i k := by
  rintro ⟨call, result, hcall, -⟩
  cases hcall

theorem accepted_iff_getElem? :
    Accepted key loop i k ↔ (acceptedKeys key loop)[i]? = some (some k) := by
  unfold Accepted acceptedKeys
  rw [List.getElem?_map, Option.map_eq_some_iff]
  refine exists_congr fun call => ?_
  rw [exists_and_left]
  refine and_congr_right fun _ => ?_
  cases call.turn.result? with
  | none => simp
  | some r =>
    cases r with
    | error e => simp [Except.toOption]
    | ok result => simp [Except.toOption]

theorem Stretch.not_accepted (h : Stretch R G' P l loop loop' i call) : ¬ Accepted key loop i k := by
  rintro ⟨old, result, hold, hresult, -⟩
  rw [h.result?_eq_none hold] at hresult
  cases hresult

theorem Stretch.accepted_iff (h : Stretch R G' P l loop loop' i call) :
    Accepted key loop' j k ↔ Accepted key loop j k ∨
      (j = i ∧ key call.args = k ∧ ∃ result, call.turn.result? = some (.ok result)) := by
  by_cases hj : j = i
  · subst hj
    constructor
    · rintro ⟨call', result, hcall, hresult, hkey⟩
      rw [h.self] at hcall
      obtain rfl := Option.some.inj hcall
      exact .inr ⟨rfl, hkey, result, hresult⟩
    · rintro (hbefore | ⟨-, hkey, result, hresult⟩)
      · exact (h.not_accepted hbefore).elim
      · exact ⟨call, result, h.self, hresult, hkey⟩
  · unfold Accepted
    rw [h.others j hj]
    simp [hj]

theorem AcceptedOnce.stretch (honce : AcceptedOnce key loop)
    (h : Stretch R G' P l loop loop' i call)
    (hnew : ∀ result, call.turn.result? = some (.ok result) → ∀ j,
      ¬ Accepted key loop j (key call.args)) : AcceptedOnce key loop' := by
  intro a b k ha hb
  rw [h.accepted_iff] at ha hb
  rcases ha with ha | ⟨rfl, rfl, result, hresult⟩
  · rcases hb with hb | ⟨rfl, rfl, result, hresult⟩
    · exact honce a b k ha hb
    · exact (hnew result hresult a ha).elim
  · rcases hb with hb | ⟨rfl, -⟩
    · exact (hnew result hresult b hb).elim
    · rfl

/-! ## Functions that rely on nothing -/

/-- At any time the rest of each call is as its arguments promise, whatever happens meanwhile. -/
theorem Run.promised (hfn : ∀ args s, (fn args s).Sat (fun _ _ => True) (G args) (P args) [] s)
    (hrun : Run fn env C s₀ labels loop) :
    ∀ call ∈ loop.calls, Guaranteed (fun _ _ => True) (G call.args) P loop.store call := by
  induction hrun with
  | start =>
    intro call hcall
    cases hcall
  | @step labels loop loop' l _ _ hstep ih =>
    intro call hcall
    refine ⟨trivial, ?_⟩
    rcases hstep.cases_of hfn ih with ⟨d, rfl, rfl⟩ | ⟨i, call', hstretch⟩
    · exact (ih call hcall).2
    · rcases hstretch.mem_calls hcall with rfl | hcall
      · exact ⟨loop.store, hstretch.sat⟩
      · exact (ih call hcall).2

theorem Run.step_cases (hfn : ∀ args s, (fn args s).Sat (fun _ _ => True) (G args) (P args) [] s)
    (hrun : Run fn env C s₀ labels loop) (hstep : Step fn env loop l loop') :
    (∃ d, l = .act d ∧ loop' = { loop with store := env d loop.store }) ∨
      ∃ i call, Stretch (fun _ _ => True) (G call.args) P l loop loop' i call :=
  hstep.cases_of hfn (hrun.promised hfn)

end Lodestar.Base.EventLoop
