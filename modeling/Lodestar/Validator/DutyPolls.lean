import Lodestar.Validator.AttestationDuties

/-!
# Polls of an epoch

What a task does to the duties of one epoch: it polls them once at most, and
after the answer keeps what is there or puts a map that is made of the answer.
-/

namespace Lodestar.Validator

open Lodestar.Base Lodestar.Base.Prog Lodestar.StateTransition

variable [DutiesContext]

/-! ## The protocol of a poll -/

/-- How far a task is with its poll of an epoch. -/
inductive PollStage where
  | notPolled
  | answered (indexArr : List Nat) (attesterDuties : AttesterDuties)
  | replacing (indexArr : List Nat) (attesterDuties : AttesterDuties)
  | done (indexArr : List Nat) (attesterDuties : AttesterDuties)
  | failed
  deriving DecidableEq

def PollStage.isPolling : PollStage → Bool
  | .answered .. | .replacing .. => true
  | _ => false

/-- The duties are those of the answer that are relevant. -/
def MadeOf (duties : AttDutiesAtEpoch) (attesterDuties : AttesterDuties) : Prop :=
  duties.dependentRoot = attesterDuties.dependentRoot ∧
    (∀ duty ∈ relevantDuties attesterDuties,
      (duties.dutiesByIndex.get duty.validatorIndex).isSome = true) ∧
    ∀ entry ∈ duties.dutiesByIndex.entries,
      entry.2.duty ∈ attesterDuties.data ∧ entry.2.duty.validatorIndex = entry.1

instance (duties : AttDutiesAtEpoch) (attesterDuties : AttesterDuties) :
    Decidable (MadeOf duties attesterDuties) :=
  inferInstanceAs (Decidable (_ ∧ _ ∧ _))

/-- The operations of the polls of an epoch. -/
def touches (epoch : Int) : DutyOp → Bool
  | .getAttesterDuties epoch' _ | .priorDependentRoot epoch' | .setDuties epoch' _ => epoch' = epoch
  | _ => false

/-- The stage once the stored dependent root is read. -/
def afterPrior (indexArr : List Nat) (attesterDuties : AttesterDuties) (prior : Option RootHex) :
    PollStage :=
  if prior = some attesterDuties.dependentRoot then .done indexArr attesterDuties
  else .replacing indexArr attesterDuties

/-- The stage after an operation. -/
def nextStage (epoch : Int) : PollStage → DutyEvent → Option PollStage
  | .answered indexArr attesterDuties, ⟨.priorDependentRoot epoch', prior⟩ =>
    if epoch' = epoch then some (afterPrior indexArr attesterDuties prior) else none
  | .replacing indexArr attesterDuties, ⟨.signAttestationSelectionProof .., .ok _⟩ =>
    some (.replacing indexArr attesterDuties)
  | .replacing .., ⟨.signAttestationSelectionProof .., .error _⟩ => some .failed
  | .replacing indexArr attesterDuties, ⟨.setDuties epoch' duties, _⟩ =>
    if epoch' = epoch ∧ MadeOf duties attesterDuties then some (.done indexArr attesterDuties)
    else none
  | .notPolled, ⟨.getAttesterDuties epoch' indexArr, .ok attesterDuties⟩ =>
    some (if epoch' = epoch then .answered indexArr attesterDuties else .notPolled)
  | .notPolled, ⟨.getAttesterDuties epoch' _, .error _⟩ =>
    some (if epoch' = epoch then .failed else .notPolled)
  | stage, ⟨o, _⟩ => if stage.isPolling || touches epoch o then none else some stage

/-! ## Tasks obey it -/

/-- The task polls no epoch but the given ones, and each of them once at most. -/
def PollsOnly {α : Type} (epochs : List Int) (p : DutyAsync α) : Prop :=
  ∀ epoch, (epoch ∉ epochs → p.Issues fun o => touches epoch o = false) ∧
    (epoch ∈ epochs →
      Obeys (nextStage epoch) .notPolled p fun stage _ => stage.isPolling = false)

variable {α β : Type} {epochs epochs' : List Int} {p : DutyAsync α} {f : α → DutyAsync β}
  {epoch : Int} {stage : PollStage} {attesterDuties : AttesterDuties}

theorem nextStage_of_touches_eq_false (hstage : stage.isPolling = false) {o : DutyOp} (r : o.Resp)
    (ho : touches epoch o = false) : nextStage epoch stage ⟨o, r⟩ = some stage := by
  have hother : (if stage.isPolling || touches epoch o then none else some stage) = some stage := by
    rw [hstage, ho]
    rfl
  cases stage with
  | answered indexArr attesterDuties => cases hstage
  | replacing indexArr attesterDuties => cases hstage
  | done indexArr attesterDuties => exact hother
  | failed => exact hother
  | notPolled =>
    cases o with
    | getAttesterDuties epoch' indexArr =>
      have hne : epoch' ≠ epoch := of_decide_eq_false ho
      cases r with
      | ok attesterDuties => exact congrArg some (if_neg hne)
      | error e => exact congrArg some (if_neg hne)
    | _ => exact hother

theorem PollsOnly.bind (hp : PollsOnly epochs p) (hf : ∀ a, PollsOnly epochs' (f a))
    (hdisjoint : ∀ epoch ∈ epochs, epoch ∉ epochs') : PollsOnly (epochs ++ epochs') (p >>= f) := by
  intro epoch
  constructor
  · intro hepoch
    rw [List.mem_append, not_or] at hepoch
    exact issues_bind ((hp epoch).1 hepoch.1) fun a => (hf a epoch).1 hepoch.2
  · intro hepoch
    apply obeys_bind
    by_cases hfirst : epoch ∈ epochs
    · apply ((hp epoch).2 hfirst).mono
      intro stage r hstage
      cases r with
      | error e => exact hstage
      | ok a =>
        have hissues := (hf a epoch).1 (hdisjoint epoch hfirst)
        apply (obeys_of_issues hissues fun o r ho => nextStage_of_touches_eq_false hstage r ho).mono
        rintro stage' r rfl
        exact hstage
    · have hissues := (hp epoch).1 hfirst
      apply (obeys_of_issues hissues fun o r ho => nextStage_of_touches_eq_false rfl r ho).mono
      rintro stage r rfl
      cases r with
      | error e => rfl
      | ok a => exact (hf a epoch).2 ((List.mem_append.mp hepoch).resolve_left hfirst)

theorem PollsOnly.caught {p : DutyAsync Unit} (h : PollsOnly epochs p) :
    PollsOnly epochs (caught p) := by
  intro epoch
  constructor
  · intro hepoch
    exact issues_tryCatch ((h epoch).1 hepoch) fun _ => trivial
  · intro hepoch
    apply obeys_tryCatch
    apply ((h epoch).2 hepoch).mono
    intro stage r hstage
    cases r with
    | ok a => exact hstage
    | error e => exact hstage

/-- What the loop has collected comes from the answer. -/
def FromAnswer (dutiesByIndex : OrderedMap Nat AttDutyAndProof) (attesterDuties : AttesterDuties) :
    Prop :=
  ∀ entry ∈ dutiesByIndex.entries,
    entry.2.duty ∈ attesterDuties.data ∧ entry.2.duty.validatorIndex = entry.1

omit [DutiesContext] in
theorem FromAnswer.set {dutiesByIndex : OrderedMap Nat AttDutyAndProof} {x : AttDutyAndProof}
    (h : FromAnswer dutiesByIndex attesterDuties) (hduty : x.duty ∈ attesterDuties.data) :
    FromAnswer (dutiesByIndex.set x.duty.validatorIndex x) attesterDuties := by
  intro entry hentry
  rcases OrderedMap.mem_entries_set hentry with rfl | hentry
  · exact ⟨hduty, rfl⟩
  · exact h entry hentry

variable [Preset]

end Lodestar.Validator
