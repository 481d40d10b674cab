import Lodestar.Validator.DutyPolls

/-!
# Attester duties that are held

The map of an epoch is kept or replaced as a whole, by the dependent root only:
a validator that is asked for after its epoch was polled gets no duty, and of
two polls at once the last map stays. `RunKeeps` says which runs hold every
duty of the dependent root that was answered last.
-/

namespace Lodestar.Validator

open Lodestar.Base Lodestar.Base.Conf Lodestar.Base.Prog Lodestar.StateTransition

section Main

variable [DutiesContext] {ι : Type}

/-! ## One epoch -/

/-- The service as one epoch sees it. -/
structure EpochView (ι : Type) where
  /-- How far each task is with its poll. -/
  stage : ι → PollStage
  held : Option AttDutiesAtEpoch
  /-- The tasks that were answered, what for and with what. -/
  answers : List (ι × List Nat × AttesterDuties)

namespace PollStage

/-- What the task asked for and was answered. -/
def answer : PollStage → Option (List Nat × AttesterDuties)
  | .answered indexArr attesterDuties | .replacing indexArr attesterDuties
  | .done indexArr attesterDuties => some (indexArr, attesterDuties)
  | _ => none

/-- The same, of a poll that has ended. -/
def ended : PollStage → Option (List Nat × AttesterDuties)
  | .done indexArr attesterDuties => some (indexArr, attesterDuties)
  | _ => none

end PollStage

/-- The dependent root that was answered last. -/
def EpochView.lastRoot (v : EpochView ι) : Option RootHex :=
  v.answers.getLast?.map (·.2.2.dependentRoot)

/-- A duty for every local validator that was asked for and has one in the answer. -/
def Covers (held : AttDutiesAtEpoch) (answer : List Nat × AttesterDuties) : Prop :=
  ∀ duty ∈ relevantDuties answer.2, duty.validatorIndex ∈ answer.1 →
    (held.dutiesByIndex.get duty.validatorIndex).isSome = true

instance (held : AttDutiesAtEpoch) (answer : List Nat × AttesterDuties) :
    Decidable (Covers held answer) :=
  inferInstanceAs (Decidable (∀ duty ∈ relevantDuties answer.2, _))

/-- The duty comes from one of the answers with the dependent root. -/
def EpochView.IsAnswered (v : EpochView ι) (dependentRoot : RootHex) (duty : AttesterDuty) : Prop :=
  ∃ a ∈ v.answers, a.2.2.dependentRoot = dependentRoot ∧ duty ∈ a.2.2.data

/-- For every local validator that was asked for and has a duty in an answer with the last dependent
root, a duty from this root is held. -/
def EpochView.HoldsDuties (v : EpochView ι) : Prop :=
  ∀ a ∈ v.answers, v.lastRoot = some a.2.2.dependentRoot →
    ∀ duty ∈ relevantDuties a.2.2, duty.validatorIndex ∈ a.2.1 →
      ∃ held x, v.held = some held ∧ held.dependentRoot = a.2.2.dependentRoot ∧
        held.dutiesByIndex.get duty.validatorIndex = some x ∧
        x.duty.validatorIndex = duty.validatorIndex ∧ v.IsAnswered a.2.2.dependentRoot x.duty

/-! ## Turns that keep the duties -/

variable [DecidableEq ι]

/-- What a turn of the task does to the epoch, if what it drops is held, and what it puts is of the
last dependent root and has the duties that polls have ended with. -/
inductive KeepingStep (i : ι) (v : EpochView ι) : EpochView ι → Prop
  | idle : KeepingStep i v v
  | answer {indexArr : List Nat} {attesterDuties : AttesterDuties} :
    v.stage i = .notPolled →
      KeepingStep i v { v with
        stage := Function.update v.stage i (.answered indexArr attesterDuties)
        answers := v.answers ++ [(i, indexArr, attesterDuties)] }
  | fail : (v.stage i).ended = none →
      KeepingStep i v { v with stage := Function.update v.stage i .failed }
  | keep {indexArr : List Nat} {attesterDuties : AttesterDuties} {held : AttDutiesAtEpoch} :
    v.stage i = .answered indexArr attesterDuties → v.held = some held →
    held.dependentRoot = attesterDuties.dependentRoot → Covers held (indexArr, attesterDuties) →
      KeepingStep i v { v with stage := Function.update v.stage i (.done indexArr attesterDuties) }
  | replace {indexArr : List Nat} {attesterDuties : AttesterDuties} :
    v.stage i = .answered indexArr attesterDuties →
      KeepingStep i v { v with
        stage := Function.update v.stage i (.replacing indexArr attesterDuties) }
  | set {indexArr : List Nat} {attesterDuties : AttesterDuties} {duties : AttDutiesAtEpoch} :
    v.stage i = .replacing indexArr attesterDuties → MadeOf duties attesterDuties →
    v.lastRoot = some duties.dependentRoot →
    (∀ j, ∀ answer ∈ (v.stage j).ended, answer.2.dependentRoot = duties.dependentRoot →
      Covers duties answer) →
      KeepingStep i v { v with
        stage := Function.update v.stage i (.done indexArr attesterDuties)
        held := some duties }

/-- A task that was answered with the dependent root is not done. -/
def EpochView.Pending (v : EpochView ι) (root : RootHex) : Prop :=
  ∃ i, v.stage i = .failed ∨ (v.stage i).isPolling = true ∧
    (v.stage i).answer.map (·.2.dependentRoot) = some root

/-- What such turns keep. -/
structure EpochView.Inv (v : EpochView ι) : Prop where
  mem_answers : ∀ i, ∀ answer ∈ (v.stage i).answer, (i, answer) ∈ v.answers
  stage : ∀ a ∈ v.answers, v.stage a.1 = .failed ∨ (v.stage a.1).answer = some a.2
  last : ∀ root, v.lastRoot = some root →
    v.held.map (·.dependentRoot) = some root ∨ v.Pending root
  covered : ∀ i, ∀ answer ∈ (v.stage i).ended, ∀ held, v.held = some held →
    held.dependentRoot = answer.2.dependentRoot → Covers held answer
  source : ∀ held, v.held = some held → ∀ entry ∈ held.dutiesByIndex.entries,
    entry.2.duty.validatorIndex = entry.1 ∧ v.IsAnswered held.dependentRoot entry.2.duty

variable {v v' : EpochView ι} {i : ι} {indexArr : List Nat} {attesterDuties : AttesterDuties}

theorem EpochView.Inv.answer (h : v.Inv) (hstage : v.stage i = .notPolled) :
    EpochView.Inv { v with
      stage := Function.update v.stage i (.answered indexArr attesterDuties)
      answers := v.answers ++ [(i, indexArr, attesterDuties)] } := by
  have hother : ∀ a ∈ v.answers, a.1 ≠ i := by
    rintro a ha rfl
    have := h.stage a ha
    rw [hstage] at this
    rcases this with hfailed | hanswer
    · cases hfailed
    · cases hanswer
  constructor
  · intro j answer hanswer
    rcases eq_or_ne j i with rfl | hj
    · simp only [Function.update_self] at hanswer
      cases hanswer
      exact List.mem_append_right _ List.mem_cons_self
    · simp only [Function.update_of_ne hj] at hanswer
      exact List.mem_append_left _ (h.mem_answers j answer hanswer)
  · intro a ha
    rcases List.mem_append.mp ha with ha | ha
    · simp only [Function.update_of_ne (hother a ha)]
      exact h.stage a ha
    · rw [List.mem_singleton.mp ha]
      simp only [Function.update_self]
      exact .inr rfl
  · intro root hroot
    refine .inr ⟨i, .inr ?_⟩
    simp only [Function.update_self]
    simp only [EpochView.lastRoot, List.getLast?_concat, Option.map_some] at hroot
    exact ⟨rfl, hroot⟩
  · intro j answer hanswer
    rcases eq_or_ne j i with rfl | hj
    · simp only [Function.update_self] at hanswer
      cases hanswer
    · simp only [Function.update_of_ne hj] at hanswer
      exact h.covered j answer hanswer
  · intro held hheld entry hentry
    obtain ⟨hvalidator, a, ha, hroot⟩ := h.source held hheld entry hentry
    exact ⟨hvalidator, a, List.mem_append_left _ ha, hroot⟩

theorem EpochView.Inv.fail (h : v.Inv) (hstage : (v.stage i).ended = none) :
    EpochView.Inv { v with stage := Function.update v.stage i .failed } := by
  constructor
  · intro j answer hanswer
    rcases eq_or_ne j i with rfl | hj
    · simp only [Function.update_self] at hanswer
      cases hanswer
    · simp only [Function.update_of_ne hj] at hanswer
      exact h.mem_answers j answer hanswer
  · intro a ha
    rcases eq_or_ne a.1 i with hi | hi
    · rw [← hi]
      exact .inl (Function.update_self ..)
    · simp only [Function.update_of_ne hi]
      exact h.stage a ha
  · exact fun root hroot => .inr ⟨i, .inl (Function.update_self ..)⟩
  · intro j answer hanswer
    rcases eq_or_ne j i with rfl | hj
    · simp only [Function.update_self] at hanswer
      cases hanswer
    · simp only [Function.update_of_ne hj] at hanswer
      exact h.covered j answer hanswer
  · exact h.source

theorem EpochView.Inv.goOn (h : v.Inv) {stage' : PollStage} {held' : Option AttDutiesAtEpoch}
    (hanswer : stage'.answer = (v.stage i).answer) (hfailed : v.stage i ≠ .failed)
    (hlast : ∀ root, v.lastRoot = some root → held'.map (·.dependentRoot) = some root ∨
      EpochView.Pending { v with stage := Function.update v.stage i stage' } root)
    (hown : ∀ answer ∈ stage'.ended, ∀ held, held' = some held →
      held.dependentRoot = answer.2.dependentRoot → Covers held answer)
    (hothers : ∀ j, ∀ answer ∈ (v.stage j).ended, ∀ held, held' = some held →
      held.dependentRoot = answer.2.dependentRoot → Covers held answer)
    (hsource : ∀ held, held' = some held → ∀ entry ∈ held.dutiesByIndex.entries,
      entry.2.duty.validatorIndex = entry.1 ∧ v.IsAnswered held.dependentRoot entry.2.duty) :
    EpochView.Inv { v with stage := Function.update v.stage i stage', held := held' } := by
  constructor
  · intro j answer hj
    rcases eq_or_ne j i with rfl | hji
    · simp only [Function.update_self, hanswer] at hj
      exact h.mem_answers j answer hj
    · simp only [Function.update_of_ne hji] at hj
      exact h.mem_answers j answer hj
  · intro a ha
    rcases eq_or_ne a.1 i with hi | hi
    · have hold := (h.stage a ha).resolve_left (by rwa [hi])
      rw [hi] at hold ⊢
      simp only [Function.update_self, hanswer]
      exact .inr hold
    · simp only [Function.update_of_ne hi]
      exact h.stage a ha
  · exact hlast
  · intro j answer hj
    rcases eq_or_ne j i with rfl | hji
    · simp only [Function.update_self] at hj
      exact hown answer hj
    · simp only [Function.update_of_ne hji] at hj
      exact hothers j answer hj
  · exact hsource

omit [DutiesContext] in
theorem EpochView.Pending.update {root : RootHex} {stage' : PollStage} (h : v.Pending root)
    (hi : v.stage i = .failed ∨ (v.stage i).isPolling = true ∧
      (v.stage i).answer.map (·.2.dependentRoot) = some root →
        stage' = .failed ∨ stage'.isPolling = true ∧
          stage'.answer.map (·.2.dependentRoot) = some root) :
    EpochView.Pending { v with stage := Function.update v.stage i stage' } root := by
  obtain ⟨j, hj⟩ := h
  refine ⟨j, ?_⟩
  rcases eq_or_ne j i with rfl | hji
  · simp only [Function.update_self]
    exact hi hj
  · simp only [Function.update_of_ne hji]
    exact hj

theorem EpochView.Inv.step (h : v.Inv) (hstep : KeepingStep i v v') : v'.Inv := by
  cases hstep with
  | idle => exact h
  | answer hstage => exact h.answer hstage
  | fail hstage => exact h.fail hstage
  | @keep indexArr attesterDuties held hstage hheld hroot hcovers =>
    apply h.goOn (by rw [hstage]; rfl) (by rw [hstage]; simp) _ _ h.covered h.source
    · intro root hlast
      by_cases hsame : attesterDuties.dependentRoot = root
      · rw [hheld, ← hsame]
        exact .inl (congrArg some hroot)
      · refine (h.last root hlast).imp_right fun hpending => hpending.update ?_
        rw [hstage]
        rintro (hfailed | ⟨-, hanswer⟩)
        · cases hfailed
        · exact absurd (Option.some.inj hanswer) hsame
    · rintro answer ⟨⟩ held' hheld' -
      obtain rfl := Option.some.inj (hheld.symm.trans hheld')
      exact hcovers
  | @replace indexArr attesterDuties hstage =>
    apply h.goOn (by rw [hstage]; rfl) (by rw [hstage]; simp) _ _ h.covered h.source
    · intro root hlast
      refine (h.last root hlast).imp_right fun hpending => hpending.update ?_
      rw [hstage]
      rintro (hfailed | hanswer)
      · cases hfailed
      · exact .inr hanswer
    · rintro answer ⟨⟩
  | @set indexArr attesterDuties duties hstage hmade hlast hcovers =>
    have hmem : (i, indexArr, attesterDuties) ∈ v.answers :=
      h.mem_answers i (indexArr, attesterDuties) (by rw [hstage]; rfl)
    apply h.goOn (by rw [hstage]; rfl) (by rw [hstage]; simp)
    · intro root hroot
      rw [hlast] at hroot
      exact .inl hroot
    · rintro answer ⟨⟩ held ⟨⟩ -
      exact fun duty hduty _ => hmade.2.1 duty hduty
    · rintro j answer hanswer held ⟨⟩ hroot
      exact hcovers j answer hanswer hroot.symm
    · rintro held ⟨⟩ entry hentry
      obtain ⟨hduty, hvalidator⟩ := hmade.2.2 entry hentry
      exact ⟨hvalidator, _, hmem, hmade.1.symm, hduty⟩

/-- The tasks and the service at a point of a run. -/
abbrev DutiesConf (ι : Type) := Conf ι DutyOp DutyOp.Resp String Unit DutiesStore

/-- The answer to a poll of the epoch. -/
def answerOf (epoch : Int) : ι × DutyEvent → Option (ι × List Nat × AttesterDuties)
  | (i, ⟨.getAttesterDuties epoch' indexArr, .ok attesterDuties⟩) =>
    if epoch' = epoch then some (i, indexArr, attesterDuties) else none
  | _ => none

def viewOf (epoch : Int) (c : DutiesConf ι) : EpochView ι where
  stage i := (stageAfter (nextStage epoch) .notPolled (view c.trace i)).getD .failed
  held := c.store.dutiesByIndexByEpoch.get epoch
  answers := c.trace.filterMap (answerOf epoch)

/-- The operation that a task awaits. -/
def opOf : DutyAsync Unit → Option DutyOp
  | .await o _ => some o
  | _ => none

/-- An answer with the dependent root that is held has no other duties; a map that is put is of the
last dependent root and has the duties that polls have ended with; the epoch is not pruned. -/
def Keeps (epoch : Int) (v : EpochView ι) (i : ι) : DutyOp → Prop
  | .priorDependentRoot epoch' => epoch' = epoch → ∀ answer ∈ (v.stage i).answer, ∀ held ∈ v.held,
    held.dependentRoot = answer.2.dependentRoot → Covers held answer
  | .setDuties epoch' duties => epoch' = epoch → v.lastRoot = some duties.dependentRoot ∧
    ∀ j, ∀ answer ∈ (v.stage j).ended, answer.2.dependentRoot = duties.dependentRoot →
      Covers duties answer
  | .pruneOldDuties currentEpoch => DutiesStore.isOld currentEpoch epoch = false
  | _ => True

instance [Fintype ι] (epoch : Int) (v : EpochView ι) (i : ι) :
    ∀ o : DutyOp, Decidable (Keeps epoch v i o)
  | .priorDependentRoot epoch' => inferInstanceAs (Decidable (epoch' = epoch →
      ∀ answer ∈ (v.stage i).answer, ∀ held ∈ v.held,
        held.dependentRoot = answer.2.dependentRoot → Covers held answer))
  | .setDuties epoch' duties => inferInstanceAs (Decidable (epoch' = epoch →
      v.lastRoot = some duties.dependentRoot ∧
      ∀ j, ∀ answer ∈ (v.stage j).ended, answer.2.dependentRoot = duties.dependentRoot →
        Covers duties answer))
  | .pruneOldDuties currentEpoch =>
    inferInstanceAs (Decidable (DutiesStore.isOld currentEpoch epoch = false))
  | .getAttesterDuties .. | .signAttestationSelectionProof .. | .prepareBeaconCommitteeSubnet _
  | .pollValidatorIndices | .getAllLocalIndices | .sleep _ | .dependentRoot _ | .dutiesByIndex _
  | .pendingDependentRoot _ | .setPendingDependentRoot .. | .deletePendingDependentRoot _ =>
    inferInstanceAs (Decidable True)

def StepKeeps (epoch : Int) (c : DutiesConf ι) (i : ι) : Prop :=
  ∀ o ∈ opOf (c.thread i), Keeps epoch (viewOf epoch c) i o

/-- Every turn of the schedule keeps the duties of the epoch. -/
def RunKeeps (epoch : Int) (c : DutiesConf ι) : List ι → Prop
  | [] => True
  | i :: sched => StepKeeps epoch c i ∧ RunKeeps epoch (c.step DutiesStore.act i) sched

instance [Fintype ι] (epoch : Int) (c : DutiesConf ι) (i : ι) : Decidable (StepKeeps epoch c i) :=
  inferInstanceAs (Decidable (∀ o ∈ opOf (c.thread i), Keeps epoch (viewOf epoch c) i o))

instance instDecidableRunKeeps [Fintype ι] (epoch : Int) : ∀ (c : DutiesConf ι) (sched : List ι),
    Decidable (RunKeeps epoch c sched)
  | _, [] => inferInstanceAs (Decidable True)
  | c, i :: sched =>
    have := instDecidableRunKeeps epoch (c.step DutiesStore.act i) sched
    inferInstanceAs (Decidable (StepKeeps epoch c i ∧ _))

variable {epoch : Int} {c : DutiesConf ι} {o : DutyOp} {this : DutiesStore}
  {Q : PollStage → Except String Unit → Prop}

variable [Preset]

end Main

/-! ## A validator that is found late -/

section Example

/-- All validators are local, and none is an aggregator. -/
@[reducible] def allLocal : DutiesContext where
  hasVotingPubkey _ := true
  selectionHash _ := 1

attribute [local instance] minimal allLocal

/-- Every validator that is asked for has a duty at the start of the epoch. -/
def dutyOf (epoch : Int) (validatorIndex : Nat) : AttesterDuty where
  pubkey := BitVec.ofNat 384 validatorIndex
  validatorIndex
  committeeIndex := 0
  committeeLength := 32
  committeesAtSlot := 1
  validatorCommitteeIndex := 0
  slot := epoch.toNat * 8

/-- The indices `local`, of which the node finds `found`; from the given time on the dependent root
is another one. -/
def node (localIndices found : List Nat) (reorgTime : Nat) (time : Nat) : (o : DutyOp) → o.Resp
  | .getAttesterDuties epoch indexArr =>
    .ok ⟨if time < reorgTime then 0xaa else 0xbb, indexArr.map (dutyOf epoch)⟩
  | .signAttestationSelectionProof .. => .ok 0
  | .prepareBeaconCommitteeSubnet _ => .ok ()
  | .pollValidatorIndices => .ok found
  | .getAllLocalIndices => localIndices
  | .priorDependentRoot _ | .dependentRoot _ | .pendingDependentRoot _ => none
  | .dutiesByIndex _ => []
  | .sleep _ | .setDuties .. | .setPendingDependentRoot .. | .deletePendingDependentRoot _
  | .pruneOldDuties _ => ()

end Example

end Lodestar.Validator
