import Lodestar.Validator.SyncCommitteeDuties

/-!
# Stretches of the sync duties tasks

What each task guarantees between two awaits: it learns indices, it stores the
duties of the answer that it got, and it asks for the duties of indices that
are known.
-/

namespace Lodestar.Validator.SyncCommittee

open Lodestar.Base Lodestar.StateTransition

/-! ## Known indices -/

namespace SyncServices

variable {this that : SyncServices}

/-- What is known stays known. -/
def Knows (this that : SyncServices) : Prop :=
  ∀ index, this.hasValidatorIndex index = true → that.hasValidatorIndex index = true

theorem Knows.refl (this : SyncServices) : this.Knows this := fun _ h => h

theorem Knows.trans {other : SyncServices} (h : this.Knows that) (h' : that.Knows other) :
    this.Knows other := fun index hindex => h' index (h index hindex)

theorem learnIndex_spec (learned : List Nat × SyncServices) (state : ValidatorState) :
    learned.2.Knows (learnIndex learned state).2 ∧
      (learnIndex learned state).2.dutiesByIndexByPeriod = learned.2.dutiesByIndexByPeriod ∧
      ∀ index ∈ (learnIndex learned state).1, index ∈ learned.1 ∨
        (learnIndex learned state).2.hasValidatorIndex index = true := by
  unfold learnIndex
  dsimp only
  split_ifs
  · exact ⟨Knows.refl _, rfl, fun index hindex => .inl hindex⟩
  · refine ⟨fun index hindex => OrderedMap.isSome_get_set hindex, rfl, fun index hindex => ?_⟩
    rcases List.mem_append.1 hindex with hindex | hindex
    · exact .inl hindex
    · obtain rfl := List.mem_singleton.1 hindex
      right
      show ((learned.2.index2pubkey.set state.index state.pubkey).get state.index).isSome = true
      rw [OrderedMap.get_set_self]
      rfl

theorem foldl_learnIndex_spec (states : List ValidatorState) (learned : List Nat × SyncServices) :
    learned.2.Knows (states.foldl learnIndex learned).2 ∧
      (states.foldl learnIndex learned).2.dutiesByIndexByPeriod = learned.2.dutiesByIndexByPeriod ∧
      ∀ index ∈ (states.foldl learnIndex learned).1, index ∈ learned.1 ∨
        (states.foldl learnIndex learned).2.hasValidatorIndex index = true := by
  induction states generalizing learned with
  | nil => exact ⟨Knows.refl _, rfl, fun index hindex => .inl hindex⟩
  | cons state states ih =>
    obtain ⟨hknows, hduties, hnew⟩ := learnIndex_spec learned state
    obtain ⟨hknows', hduties', hnew'⟩ := ih (learnIndex learned state)
    refine ⟨hknows.trans hknows', hduties'.trans hduties, fun index hindex => ?_⟩
    rcases hnew' index hindex with hindex | hindex
    · rcases hnew index hindex with hindex | hindex
      · exact .inl hindex
      · exact .inr (hknows' index hindex)
    · exact .inr hindex

/-! ## The map of an answer -/

theorem get_foldl_localDuties (this : SyncServices) (dependentRoot : RootHex) (data : List SyncDuty)
    (duties : OrderedMap Nat DutyAtPeriod) (index : Nat) :
    ((data.foldl (fun dutiesByIndex duty =>
      if this.hasValidatorIndex duty.validatorIndex then
        dutiesByIndex.set duty.validatorIndex ⟨dependentRoot, duty⟩
      else dutiesByIndex) duties).get index).isSome = true ↔
      (duties.get index).isSome = true ∨
        (this.hasValidatorIndex index = true ∧ ∃ duty ∈ data, duty.validatorIndex = index) := by
  induction data generalizing duties with
  | nil => simp
  | cons duty data ih =>
    rw [List.foldl_cons, ih]
    by_cases hknown : this.hasValidatorIndex duty.validatorIndex = true
    · rw [if_pos hknown, OrderedMap.get_set]
      by_cases hindex : index = duty.validatorIndex
      · subst hindex
        simp [hknown]
      · simp [hindex, Ne.symm hindex]
    · rw [if_neg hknown]
      constructor
      · rintro (h | ⟨hindex, d, hd, heq⟩)
        · exact .inl h
        · exact .inr ⟨hindex, d, List.mem_cons_of_mem _ hd, heq⟩
      · rintro (h | ⟨hindex, d, hd, heq⟩)
        · exact .inl h
        · rcases List.mem_cons.1 hd with rfl | hd
          · rw [heq] at hknown
            exact (hknown hindex).elim
          · exact .inr ⟨hindex, d, hd, heq⟩

theorem localDuties_validatorIndex (this : SyncServices) (syncDuties : SyncDuties) {index : Nat}
    {dutyAtPeriod : DutyAtPeriod} (h : (this.localDuties syncDuties).get index = some dutyAtPeriod) :
    dutyAtPeriod.duty.validatorIndex = index := by
  have hall : ∀ entry ∈ (this.localDuties syncDuties).entries,
      entry.2.duty.validatorIndex = entry.1 := by
    unfold localDuties
    refine List.foldlRecOn (motive := fun duties : OrderedMap Nat DutyAtPeriod =>
      ∀ entry ∈ duties.entries, entry.2.duty.validatorIndex = entry.1) _ _ ?_ ?_
    · intro entry hentry
      cases hentry
    · intro duties ih duty _
      split_ifs
      · intro entry hentry
        rcases OrderedMap.mem_entries_set hentry with rfl | hentry
        · rfl
        · exact ih entry hentry
      · exact ih
  exact hall _ (OrderedMap.get_eq_some_iff.1 h)

theorem isSome_get_localDuties (this : SyncServices) (syncDuties : SyncDuties) (index : Nat) :
    ((this.localDuties syncDuties).get index).isSome = true ↔
      this.hasValidatorIndex index = true ∧ ∃ duty ∈ syncDuties.data, duty.validatorIndex = index := by
  unfold localDuties
  rw [get_foldl_localDuties]
  simp

end SyncServices

/-! ## What the tasks guarantee -/

section

variable [Preset]

/-- What a stretch does to the duties, by the answer that starts it. -/
def DutiesAfter (answers : Answers SyncDutyQuery SyncDutyAnswer) (this that : SyncServices) : Prop :=
  match answers.getLast? with
  | some ⟨.getSyncCommitteeDuties epoch _, .ok syncDuties⟩ =>
    that.dutiesByIndexByPeriod = this.dutiesByIndexByPeriod.set (computeSyncPeriodAtEpoch epoch)
      (this.localDuties syncDuties)
  | _ => that.dutiesByIndexByPeriod = this.dutiesByIndexByPeriod

/-- A stretch up to here. -/
def SoFar (answers : Answers SyncDutyQuery SyncDutyAnswer) (this that : SyncServices) : Prop :=
  DutiesAfter answers this that ∧ this.Knows that

/-- The indices are known, or another caller's poll returned them. -/
def AreKnown (indexArr : List Nat) (answers : Answers SyncDutyQuery SyncDutyAnswer)
    (this : SyncServices) : Prop :=
  ∀ index ∈ indexArr, this.hasValidatorIndex index = true ∨
    ∃ newIndices, ⟨.pollValidatorIndicesPromise, .ok newIndices⟩ ∈ answers ∧
      index ∈ (newIndices : List Nat)

/-- At an await; duties are asked for indices that are known. -/
def AwaitsKnown (answers : Answers SyncDutyQuery SyncDutyAnswer) (this : SyncServices)
    (q : SyncDutyQuery) (that : SyncServices) : Prop :=
  SoFar answers this that ∧
    ∀ epoch indexArr, q = .getSyncCommitteeDuties epoch indexArr → AreKnown indexArr answers that

abbrev SyncSat {α : Type} (P : Answers SyncDutyQuery SyncDutyAnswer → SyncServices → Except String α →
    SyncServices → Prop) :=
  Turn.Sat SyncServices.Knows AwaitsKnown P

variable {α : Type} {answers : Answers SyncDutyQuery SyncDutyAnswer} {this that other : SyncServices}
  {indexArr : List Nat}

omit [Preset] in
theorem AreKnown.mono (h : AreKnown indexArr answers this) (hknows : this.Knows that)
    (r : (q : SyncDutyQuery) × SyncDutyAnswer q) : AreKnown indexArr (answers ++ [r]) that := by
  intro index hindex
  rcases h index hindex with hknown | ⟨newIndices, hmem, hnew⟩
  · exact .inl (hknows index hknown)
  · exact .inr ⟨newIndices, List.mem_append_left _ hmem, hnew⟩

theorem SoFar.next (h : SoFar answers this that)
    (hduties : other.dutiesByIndexByPeriod = that.dutiesByIndexByPeriod) (hknows : that.Knows other) :
    SoFar answers this other := by
  refine ⟨?_, h.2.trans hknows⟩
  have hafter := h.1
  unfold DutiesAfter at hafter ⊢
  rwa [hduties]

theorem soFar_refl {r : (q : SyncDutyQuery) × SyncDutyAnswer q}
    (h : ∀ epoch indexArr syncDuties, r ≠ ⟨.getSyncCommitteeDuties epoch indexArr, .ok syncDuties⟩) :
    SoFar (answers ++ [r]) this this := by
  refine ⟨?_, SyncServices.Knows.refl _⟩
  unfold DutiesAfter
  rw [List.getLast?_concat]
  split
  · next heq =>
    exact (h _ _ _ (Option.some.inj heq)).elim
  · rfl

theorem DutiesAfter.of_ok {epoch : Nat} {syncDuties : SyncDuties} :
    DutiesAfter (answers ++ [⟨.getSyncCommitteeDuties epoch indexArr, .ok syncDuties⟩]) this
      (this.storeDuties epoch syncDuties) := by
  unfold DutiesAfter
  rw [List.getLast?_concat]
  rfl

/-! ## Requests and changes -/

/-- What holds where a task is, and at its end. -/
abbrev TaskPost (α : Type) :=
  Answers SyncDutyQuery SyncDutyAnswer → SyncServices → Except String α → SyncServices → Prop

/-- The stretch so far, with indices to poll. -/
def PollsSoFar (indexArr : List Nat) : TaskPost α := fun answers this _ that =>
  SoFar answers this that ∧ AreKnown indexArr answers that

theorem sat_change {f : SyncServices → α × SyncServices} {P : TaskPost α}
    (h : P answers this (.ok (f that).1) (f that).2) :
    SyncSat P answers this (change f that) := h

theorem sat_request {q : SyncDutyQuery} {P : TaskPost q.Result} (hq : AwaitsKnown answers this q that)
    (h : ∀ a other, that.Knows other → P (answers ++ [⟨q, a⟩]) other a other) :
    SyncSat P answers this (request q that) := by
  refine ⟨hq, fun a other hknows => ?_⟩
  have hP := h a other hknows
  cases a with
  | ok a => exact hP
  | error e => exact hP

theorem sat_extendError {message : String} {p : SyncTask α} {P : TaskPost α}
    (hp : SyncSat P answers this (p that))
    (herror : ∀ answers this e e' that, P answers this (.error e) that →
      P answers this (.error e') that) :
    SyncSat P answers this (extendError message p that) := by
  refine Async.sat_tryCatch_of hp (fun _ _ _ _ h => h) fun answers this e that h => ?_
  exact herror _ _ _ _ _ h

theorem sat_logged {p : SyncTask Unit} {P : TaskPost Unit} (hp : SyncSat P answers this (p that))
    (herror : ∀ answers this e that, P answers this (.error e) that → P answers this (.ok ()) that) :
    SyncSat P answers this (logged p that) :=
  Async.sat_tryCatch_of hp (fun _ _ _ _ h => h) fun _ _ _ _ h => herror _ _ _ _ h

/-! ## Polls -/

theorem sat_fetchValidatorIndices (pubkeysHex : List BLSPubkey) (h : SoFar answers this that)
    {newIndices : List Nat} (hnew : AreKnown newIndices answers that) :
    SyncSat (fun answers this r that => SoFar answers this that ∧ AreKnown newIndices answers that ∧
      ∀ indices, r = .ok indices → AreKnown indices answers that) answers this
      (fetchValidatorIndices pubkeysHex that) := by
  refine Async.sat_bind_of (P := fun answers this _ that =>
    SoFar answers this that ∧ AreKnown newIndices answers that) ?_ ?_ ?_
  · refine sat_request ⟨h, ?_⟩ fun a other hknows => ⟨soFar_refl ?_, hnew.mono hknows _⟩
    · rintro epoch indexArr ⟨⟩
    · rintro epoch indexArr syncDuties ⟨⟩
  · rintro answers this states that ⟨hsofar, hnew⟩
    refine sat_change ?_
    obtain ⟨hknows, hduties, hlearned⟩ := SyncServices.foldl_learnIndex_spec states ([], that)
    refine ⟨hsofar.next hduties hknows, fun index hindex => ?_, fun indices hindices index hindex => ?_⟩
    · exact (hnew index hindex).imp_left (hknows index)
    · cases hindices
      exact .inl ((hlearned index hindex).resolve_left List.not_mem_nil)
  · rintro answers this e that ⟨hsofar, hnew⟩
    exact ⟨hsofar, hnew, fun indices hindices => by cases hindices⟩

/-- A poll of the indices, with what it returns. -/
def PolledIndices : TaskPost (List Nat) := fun answers this r that =>
  SoFar answers this that ∧ ∀ indices, r = .ok indices → AreKnown indices answers that

theorem sat_fetchBatches {batches : List (List BLSPubkey)} {newIndices : List Nat}
    (h : SoFar answers this that) (hnew : AreKnown newIndices answers that) :
    SyncSat PolledIndices answers this (fetchBatches batches newIndices that) := by
  induction batches generalizing answers this that newIndices with
  | nil =>
    refine ⟨h, fun indices hindices => ?_⟩
    cases hindices
    exact hnew
  | cons batch batches ih =>
    refine Async.sat_bind_of (sat_fetchValidatorIndices batch h hnew) ?_ ?_
    · rintro answers this indices that ⟨hsofar, hnew, hindices⟩
      refine ih hsofar fun index hindex => ?_
      rcases List.mem_append.1 hindex with hindex | hindex
      · exact hnew index hindex
      · exact hindices indices rfl index hindex
    · rintro answers this e that ⟨hsofar, -⟩
      exact ⟨hsofar, fun indices hindices => by cases hindices⟩

omit [Preset] in
theorem areKnown_nil : AreKnown [] answers this := fun index hindex => by cases hindex

theorem sat_pollValidatorIndicesInternal (votingPubkeys : List BLSPubkey)
    (h : SoFar answers this that) :
    SyncSat PolledIndices answers this (pollValidatorIndicesInternal votingPubkeys that) := by
  refine Async.sat_bind_of (P := fun answers this _ that => SoFar answers this that) ?_ ?_ ?_
  · exact sat_change h
  · intro answers this pubkeysHex that hsofar
    by_cases hempty : pubkeysHex = []
    · rw [if_pos hempty]
      exact ⟨hsofar, fun indices hindices => by cases hindices; exact areKnown_nil⟩
    · rw [if_neg hempty]
      exact sat_fetchBatches hsofar areKnown_nil
  · intro answers this e that hsofar
    exact ⟨hsofar, fun indices hindices => by cases hindices⟩

theorem SoFar.endPoll (h : SoFar answers this that) :
    SoFar answers this { that with pollingIndices := false } :=
  h.next rfl fun _ hindex => hindex

theorem sat_pollValidatorIndices (votingPubkeys : List BLSPubkey) (h : SoFar answers this that) :
    SyncSat PolledIndices answers this (pollValidatorIndices votingPubkeys that) := by
  refine Async.sat_bind_of (P := fun answers this _ that => SoFar answers this that) ?_ ?_ ?_
  · exact sat_change (h.next rfl fun _ hindex => hindex)
  · intro answers this polling that hsofar
    cases polling with
    | true =>
      refine sat_request (q := .pollValidatorIndicesPromise) ⟨hsofar, ?_⟩ fun a other hknows => ⟨soFar_refl ?_, ?_⟩
      · rintro epoch indexArr ⟨⟩
      · rintro epoch indexArr syncDuties ⟨⟩
      · -- the other caller's poll returned them
        rintro indices rfl index hindex
        exact .inr ⟨indices, List.mem_append_right _ List.mem_cons_self, hindex⟩
    | false =>
      refine Async.sat_bind_of (P := PolledIndices) ?_ ?_ ?_
      · refine Async.sat_tryCatch_of (sat_pollValidatorIndicesInternal votingPubkeys hsofar) ?_ ?_
        · exact fun _ _ _ _ h => h
        · rintro answers this e that ⟨hsofar, -⟩
          exact ⟨hsofar.endPoll, fun indices hindices => by cases hindices⟩
      · rintro answers this newIndices that ⟨hsofar, hnew⟩
        refine ⟨hsofar.endPoll, fun indices hindices => ?_⟩
        cases hindices
        exact hnew newIndices rfl
      · exact fun _ _ _ _ h => h
  · intro answers this e that hsofar
    exact ⟨hsofar, fun indices hindices => by cases hindices⟩

theorem sat_pollSyncCommitteesForEpoch (epoch : Nat) (h : SoFar answers this that)
    (hknown : AreKnown indexArr answers that) :
    SyncSat (PollsSoFar indexArr) answers this (pollSyncCommitteesForEpoch epoch indexArr that) := by
  -- an answer that came is not stored yet
  refine Async.sat_bind_of (P := fun answers this r that =>
    AreKnown indexArr answers that ∧ this.Knows that ∧ match r with
      | .ok syncDuties => DutiesAfter answers this (that.storeDuties epoch syncDuties)
      | .error _ => DutiesAfter answers this that) ?_ ?_ ?_
  · refine sat_extendError (sat_request ⟨h, ?_⟩ fun a other hknows => ?_) fun _ _ _ _ _ h => h
    · rintro epoch' indexArr' ⟨⟩
      exact hknown
    · refine ⟨hknown.mono hknows _, SyncServices.Knows.refl _, ?_⟩
      cases a with
      | ok syncDuties => exact DutiesAfter.of_ok
      | error e =>
        refine (soFar_refl ?_).1
        rintro epoch indexArr syncDuties ⟨⟩
  · rintro answers this syncDuties that ⟨hknown, hknows, hafter⟩
    exact sat_change ⟨⟨hafter, hknows⟩, hknown⟩
  · rintro answers this e that ⟨hknown, hknows, hafter⟩
    exact ⟨⟨hafter, hknows⟩, hknown⟩

theorem sat_pollSyncCommittees (currentEpoch : Nat) (h : SoFar answers this that)
    (hknown : AreKnown indexArr answers that) :
    SyncSat (fun answers this _ that => SoFar answers this that) answers this
      (pollSyncCommittees currentEpoch indexArr that) := by
  unfold pollSyncCommittees
  by_cases hempty : indexArr = []
  · rw [if_pos hempty]
    exact h
  rw [if_neg hempty]
  have hpoll : ∀ epoch answers this that, PollsSoFar indexArr answers this (.ok ()) that →
      SyncSat (PollsSoFar indexArr) answers this
        (logged (pollSyncCommitteesForEpoch epoch indexArr) that) := fun epoch _ _ _ hpre =>
    sat_logged (sat_pollSyncCommitteesForEpoch epoch hpre.1 hpre.2) fun _ _ _ _ h => h
  refine Async.sat_bind_of (hpoll currentEpoch _ _ _ ⟨h, hknown⟩) ?_ fun _ _ _ _ h => h.1
  intro answers this _ that hpre
  refine Async.sat_bind_of (hpoll _ _ _ _ hpre) ?_ fun _ _ _ _ h => h.1
  rintro answers this _ that ⟨hsofar, -⟩
  refine Async.sat_bind_of (P := fun answers this _ that => SoFar answers this that)
    (sat_change hsofar) ?_ fun _ _ _ _ h => h
  intro answers this subscriptions that hsofar
  by_cases hnone : subscriptions = []
  · rw [if_pos hnone]
    exact hsofar
  rw [if_neg hnone]
  refine Async.sat_bind_of (P := fun answers this _ that => SoFar answers this that) ?_
    (fun _ _ _ _ h => h) fun _ _ _ _ h => h
  refine sat_extendError (sat_request ⟨hsofar, ?_⟩ fun a other hknows => soFar_refl ?_)
    fun _ _ _ _ _ h => h
  · rintro epoch indexArr ⟨⟩
  · rintro epoch indexArr syncDuties ⟨⟩

/-! ## Tasks -/

/-- The end of a task: of the prune, the old duties are gone. -/
def TaskEnds (task : SyncDutyTask) : TaskPost Unit := fun answers this _ that =>
  match task with
  | .pruneOldDuties currentEpoch => answers = [] ∧ that = this.pruneOldDuties currentEpoch
  | _ => SoFar answers this that

theorem soFar_nil (this : SyncServices) : SoFar [] this this :=
  ⟨rfl, SyncServices.Knows.refl this⟩

theorem sat_run (votingPubkeys : List BLSPubkey) (task : SyncDutyTask) (this : SyncServices) :
    SyncSat (TaskEnds task) [] this (task.run votingPubkeys this) := by
  cases task with
  | pollAllLocalIndices currentEpoch =>
    refine Async.sat_bind_of (P := fun answers this r that => SoFar answers this that ∧
      ∀ indexArr, r = .ok indexArr → AreKnown indexArr answers that) ?_ ?_ ?_
    · refine sat_change ⟨soFar_nil this, fun indexArr hindexArr index hindex => ?_⟩
      cases hindexArr
      left
      by_contra hnone
      exact OrderedMap.get_eq_none_iff.1 (Option.not_isSome_iff_eq_none.1 hnone) hindex
    · rintro answers this indexArr that ⟨hsofar, hknown⟩
      exact sat_pollSyncCommittees currentEpoch hsofar (hknown indexArr rfl)
    · exact fun _ _ _ _ h => h.1
  | pollNewIndices currentEpoch =>
    refine Async.sat_bind_of (sat_pollValidatorIndices votingPubkeys (soFar_nil this)) ?_ ?_
    · rintro answers this newIndices that ⟨hsofar, hknown⟩
      exact sat_pollSyncCommittees currentEpoch hsofar (hknown newIndices rfl)
    · exact fun _ _ _ _ h => h.1
  | pruneOldDuties currentEpoch => exact sat_change ⟨rfl, rfl⟩
  | pollIndicesOnly =>
    refine Async.sat_bind_of (sat_pollValidatorIndices votingPubkeys (soFar_nil this)) ?_ ?_
    · exact fun _ _ _ _ h => h.1
    · exact fun _ _ _ _ h => h.1

/-! ## Runs -/

abbrev SyncLabel : Type := EventLoop.Label SyncDutyTask SyncDutyQuery SyncDutyAnswer Empty

abbrev SyncLoop : Type := EventLoop SyncDutyTask SyncServices SyncDutyQuery SyncDutyAnswer String Unit

abbrev SyncDutiesRun (votingPubkeys : List BLSPubkey) (C : SyncLoop → SyncLabel → Prop) :
    List SyncLabel → SyncLoop → Prop :=
  EventLoop.Run (SyncDutyTask.run votingPubkeys) (fun (_ : Empty) this => this) C .new

theorem guarantees_run (votingPubkeys : List BLSPubkey) :
    EventLoop.Guarantees (SyncDutyTask.run votingPubkeys) (fun (_ : Empty) this => this)
      SyncServices.Knows AwaitsKnown TaskEnds where
  sat := sat_run votingPubkeys
  refl := SyncServices.Knows.refl
  trans := fun _ _ _ h h' => h.trans h'
  await := fun _ _ _ _ h => h.1.2
  done := fun task _ _ _ _ h => by
    cases task with
    | pruneOldDuties currentEpoch =>
      obtain ⟨-, rfl⟩ := h
      exact fun index hindex => hindex
    | _ => exact h.2
  act := fun d _ => d.elim

end

end Lodestar.Validator.SyncCommittee
