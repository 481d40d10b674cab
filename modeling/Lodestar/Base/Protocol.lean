import Lodestar.Base.Interleave

/-!
# Protocols of concurrent programs

A protocol gives the stage that an operation and its answer lead to, or none
where the operation is not allowed. A program that obeys it from its first
stage is, at every point of a run, at the stage that its own operations have
led to, and obeys the protocol from there (`AtStage`).
-/

namespace Lodestar.Base

variable {Op : Type} {Resp : Op → Type} {ε α β Stage : Type}

namespace Prog

variable (next : Stage → Event Op Resp → Option Stage)

/-- Whatever the answers, `p` goes from the stage by allowed operations only, and ends as in `Q`. -/
def Obeys : Stage → Prog Op Resp ε α → (Stage → Except ε α → Prop) → Prop
  | stage, .ret a, Q => Q stage (.ok a)
  | stage, .raise e, Q => Q stage (.error e)
  | stage, .await o k, Q => ∀ r, ∃ stage', next stage ⟨o, r⟩ = some stage' ∧ Obeys stage' (k r) Q

variable {next} {stage : Stage} {p : Prog Op Resp ε α} {Q R : Stage → Except ε α → Prop}

theorem Obeys.mono (h : Obeys next stage p Q) (hQ : ∀ stage r, Q stage r → R stage r) :
    Obeys next stage p R := by
  induction p generalizing stage with
  | ret a => exact hQ _ _ h
  | raise e => exact hQ _ _ h
  | await o k ih =>
    intro r
    obtain ⟨stage', hnext, hk⟩ := h r
    exact ⟨stage', hnext, ih r hk⟩

theorem obeys_bind {f : α → Prog Op Resp ε β} {Q : Stage → Except ε β → Prop}
    (h : Obeys next stage p fun stage' r => match r with
      | .ok a => Obeys next stage' (f a) Q
      | .error e => Q stage' (.error e)) :
    Obeys next stage (p >>= f) Q := by
  show Obeys next stage (p.bind f) Q
  induction p generalizing stage with
  | ret a => exact h
  | raise e => exact h
  | await o k ih =>
    intro r
    obtain ⟨stage', hnext, hk⟩ := h r
    exact ⟨stage', hnext, ih r hk⟩

theorem obeys_tryCatch {handle : ε → Prog Op Resp ε α}
    (h : Obeys next stage p fun stage' r => match r with
      | .ok a => Q stage' (.ok a)
      | .error e => Obeys next stage' (handle e) Q) :
    Obeys next stage (tryCatch p handle) Q := by
  show Obeys next stage (p.catchWith handle) Q
  induction p generalizing stage with
  | ret a => exact h
  | raise e => exact h
  | await o k ih =>
    intro r
    obtain ⟨stage', hnext, hk⟩ := h r
    exact ⟨stage', hnext, ih r hk⟩

theorem obeys_of_issues {P : Op → Prop} (h : p.Issues P)
    (hP : ∀ o r, P o → next stage ⟨o, r⟩ = some stage) :
    Obeys next stage p fun stage' _ => stage' = stage := by
  induction p with
  | ret a => rfl
  | raise e => rfl
  | await o k ih => exact fun r => ⟨stage, hP o r h.1, ih r (h.2 r)⟩

end Prog

namespace Conf

variable {ι σ : Type} {next : Stage → Event Op Resp → Option Stage}

/-- The stage that the operations lead to. -/
def stageAfter (next : Stage → Event Op Resp → Option Stage) (stage : Stage)
    (tr : List (Event Op Resp)) : Option Stage :=
  tr.foldl (fun stage e => stage.bind (next · e)) (some stage)

theorem stageAfter_append {stage : Stage} {tr : List (Event Op Resp)} {e : Event Op Resp} :
    stageAfter next stage (tr ++ [e]) = (stageAfter next stage tr).bind (next · e) := by
  simp [stageAfter]

variable [DecidableEq ι] {act : (o : Op) → σ → Resp o × σ} {p : ι → Prog Op Resp ε α} {s : σ}

/-- Each program is where its operations have led it, and goes on from there as allowed. -/
def AtStage (next : Stage → Event Op Resp → Option Stage) (stage : Stage)
    (Q : Stage → Except ε α → Prop) (c : Conf ι Op Resp ε α σ) : Prop :=
  ∀ i, ∃ stage', stageAfter next stage (view c.trace i) = some stage' ∧
    Prog.Obeys next stage' (c.thread i) Q

variable {stage : Stage} {Q : Stage → Except ε α → Prop} {c : Conf ι Op Resp ε α σ}

theorem AtStage.step (h : AtStage next stage Q c) (i : ι) :
    AtStage next stage Q (c.step act i) := by
  rcases c.step_cases act i with ⟨o, k, hi⟩ | hsame
  · rw [step_await hi]
    intro j
    obtain ⟨stage', hstage, hobeys⟩ := h j
    by_cases hji : j = i
    · subst hji
      rw [hi] at hobeys
      obtain ⟨stage'', hnext, hk⟩ := hobeys (act o c.store).1
      refine ⟨stage'', ?_, ?_⟩
      · rw [view_append, view_cons_self, view_nil, stageAfter_append, hstage]
        exact hnext
      · dsimp only
        rw [Function.update_self]
        exact hk
    · refine ⟨stage', ?_, ?_⟩
      · rw [view_append, view_cons_ne (Ne.symm hji), view_nil, List.append_nil]
        exact hstage
      · dsimp only
        rw [Function.update_of_ne hji]
        exact hobeys
  · rw [hsame]
    exact h

end Conf

end Lodestar.Base
