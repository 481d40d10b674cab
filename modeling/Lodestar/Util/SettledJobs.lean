import Lodestar.Util.JobItemQueue
import Mathlib.Data.List.Perm.Basic

/-!
# Jobs are settled once

The promises of a queue against the jobs that wait and run: as long as no job
is dropped, each pending promise is of exactly one of them, and is settled once
when that job ends. The lemma about a step is `Inv.step`.
-/

namespace Lodestar.Util.JobItemQueue

variable {α ρ ε : Type}

/-! ## Promises and their jobs -/

/-- The pending promises are those of the `live` jobs; the promises of the `done` ones are
settled. -/
structure Ledger (promises : List (JobPromise ρ ε)) (live done : List (Job α)) : Prop where
  nodup : ((live ++ done).map (·.promise)).Nodup
  pending : ∀ job ∈ live, promises[job.promise]? = some none
  settled : ∀ job ∈ done, ∃ outcome, promises[job.promise]? = some (some outcome)
  covered : ∀ promise, promises[promise]? = some none → ∃ job ∈ live, job.promise = promise

variable {promises : List (JobPromise ρ ε)} {live live' done : List (Job α)} {job : Job α}

theorem settle_self {promise : Nat} {outcome : Except (JobError ε) ρ}
    (h : promises[promise]? = some none) :
    (settle promises promise outcome)[promise]? = some (some outcome) := by
  unfold settle
  rw [List.getElem?_modify_eq, h]
  rfl

theorem settle_of_ne {promise other : Nat} {outcome : Except (JobError ε) ρ} (h : promise ≠ other) :
    (settle promises promise outcome)[other]? = promises[other]? :=
  List.getElem?_modify_ne _ _ h

theorem settle_of_settled {promise other : Nat} {outcome outcome' : Except (JobError ε) ρ}
    (h : promises[other]? = some (some outcome)) :
    (settle promises promise outcome')[other]? = some (some outcome) := by
  by_cases heq : promise = other
  · subst heq
    unfold settle
    rw [List.getElem?_modify_eq, h]
    rfl
  · rwa [settle_of_ne heq]

theorem Ledger.perm (h : Ledger promises live done) (hperm : live.Perm live') :
    Ledger promises live' done where
  nodup := ((hperm.append_right done).map _).nodup_iff.1 h.nodup
  pending := fun job hjob => h.pending job (hperm.mem_iff.2 hjob)
  settled := h.settled
  covered := fun promise hpromise => by
    obtain ⟨job, hjob, hid⟩ := h.covered promise hpromise
    exact ⟨job, hperm.mem_iff.1 hjob, hid⟩

theorem Ledger.settle (h : Ledger promises (job :: live) done) (outcome : Except (JobError ε) ρ) :
    Ledger (settle promises job.promise outcome) live (done ++ [job]) := by
  have hnodup := h.nodup
  rw [List.cons_append, List.map_cons, List.nodup_cons] at hnodup
  have hother : ∀ j ∈ live ++ done, job.promise ≠ j.promise := fun j hj heq =>
    hnodup.1 (heq ▸ List.mem_map_of_mem hj)
  refine ⟨?_, fun j hj => ?_, fun j hj => ?_, fun promise hpromise => ?_⟩
  · have hperm : (live ++ (done ++ [job])).Perm (job :: live ++ done) := by
      rw [← List.append_assoc]
      exact List.perm_append_singleton job _
    exact (hperm.map _).nodup_iff.2 h.nodup
  · rw [settle_of_ne (hother j (List.mem_append_left _ hj))]
    exact h.pending j (List.mem_cons_of_mem _ hj)
  · rcases List.mem_append.1 hj with hj | hj
    · obtain ⟨outcome', houtcome⟩ := h.settled j hj
      exact ⟨outcome', settle_of_settled houtcome⟩
    · obtain rfl := List.mem_singleton.1 hj
      exact ⟨outcome, settle_self (h.pending j List.mem_cons_self)⟩
  · have hne : job.promise ≠ promise := by
      rintro rfl
      rw [settle_self (h.pending job List.mem_cons_self)] at hpromise
      cases hpromise
    rw [settle_of_ne hne] at hpromise
    obtain ⟨j, hj, hid⟩ := h.covered promise hpromise
    rcases List.mem_cons.1 hj with rfl | hj
    · exact (hne hid).elim
    · exact ⟨j, hj, hid⟩

theorem Ledger.sublist {done' : List (Job α)} (h : Ledger promises live done)
    (hsub : done'.Sublist done) : Ledger promises live done' where
  nodup := List.Sublist.nodup ((List.Sublist.append_left hsub live).map _) h.nodup
  pending := h.pending
  settled := fun job hjob => h.settled job (hsub.subset hjob)
  covered := h.covered

theorem Ledger.ne_promise (h : Ledger promises (live ++ live') done) {other : Job α}
    (hjob : job ∈ live) (hother : other ∈ live') : job.promise ≠ other.promise := by
  have hnodup : ((live ++ live').map (·.promise)).Nodup :=
    List.Sublist.nodup ((List.sublist_append_left _ _).map _) h.nodup
  rw [List.map_append, List.nodup_append] at hnodup
  exact hnodup.2.2 _ (List.mem_map_of_mem hjob) _ (List.mem_map_of_mem hother)

theorem Ledger.push (h : Ledger promises live done) (args : α) :
    Ledger (promises ++ [none]) (⟨args, promises.length⟩ :: live) done := by
  have hlt : ∀ j ∈ live ++ done, j.promise < promises.length := by
    intro j hj
    rcases List.mem_append.1 hj with hj | hj
    · exact (List.getElem?_eq_some_iff.1 (h.pending j hj)).1
    · obtain ⟨outcome, houtcome⟩ := h.settled j hj
      exact (List.getElem?_eq_some_iff.1 houtcome).1
  refine ⟨?_, fun j hj => ?_, fun j hj => ?_, fun promise hpromise => ?_⟩
  · rw [List.cons_append, List.map_cons, List.nodup_cons]
    refine ⟨fun hmem => ?_, h.nodup⟩
    obtain ⟨j, hj, heq⟩ := List.mem_map.1 hmem
    exact absurd (hlt j hj) (not_lt.2 (le_of_eq heq.symm))
  · rcases List.mem_cons.1 hj with rfl | hj
    · simp
    · rw [List.getElem?_append_left (hlt j (List.mem_append_left _ hj))]
      exact h.pending j hj
  · rw [List.getElem?_append_left (hlt j (List.mem_append_right _ hj))]
    exact h.settled j hj
  · rcases lt_or_ge promise promises.length with hlt | hge
    · rw [List.getElem?_append_left hlt] at hpromise
      obtain ⟨j, hj, hid⟩ := h.covered promise hpromise
      exact ⟨j, List.mem_cons_of_mem _ hj, hid⟩
    · have hle := (List.getElem?_eq_some_iff.1 hpromise).1
      rw [List.length_append, List.length_singleton] at hle
      exact ⟨_, List.mem_cons_self, show promises.length = promise by omega⟩

/-! ## The queue -/

variable {opts : JobQueueOpts} {this this' : JobItemQueue α ρ ε} {waiting : List (Job α)}

/-- The parts of the state agree, with the jobs that wait. -/
structure Core (opts : JobQueueOpts) (this : JobItemQueue α ρ ε) (waiting : List (Job α)) :
    Prop where
  jobs : this.jobs.Represents waiting
  count : this.runningJobs = this.processing.length + this.yielding.length
  le : (this.runningJobs : WithTop Nat) ≤ opts.maxConcurrency
  ledger : Ledger this.promises (waiting ++ this.processing) this.yielding

/-- Jobs that wait will be run, unless the queue was aborted, when none waits. -/
structure Inv (opts : JobQueueOpts) (this : JobItemQueue α ρ ε) (waiting : List (Job α)) :
    Prop extends Core opts this waiting where
  going : 0 < opts.maxConcurrency → waiting ≠ [] → 0 < this.runningJobs ∨ 0 < this.scheduled
  aborted : this.aborted = true → waiting = []

theorem inv_new : Inv opts (new : JobItemQueue α ρ ε) [] where
  jobs := LinkedList.represents_empty
  count := rfl
  le := bot_le
  ledger := by
    refine ⟨List.nodup_nil, ?_, ?_, ?_⟩
    · intro job h
      cases h
    · intro job h
      cases h
    · intro promise h
      cases h
  going := fun _ h => (h rfl).elim
  aborted := fun _ => rfl

/-- The list without the job that `runJob` takes, if there is one. -/
def rest (type : QueueType) (waiting : List (Job α)) : List (Job α) :=
  match type with
  | .LIFO => waiting.dropLast
  | .FIFO => waiting.tail

theorem takeJob_spec (opts : JobQueueOpts) {jobs : LinkedList (Job α)}
    (hjobs : jobs.Represents waiting) :
    (∃ job jobs', takeJob opts jobs = (some job, jobs') ∧
        waiting.Perm (job :: rest opts.type waiting) ∧ jobs'.Represents (rest opts.type waiting)) ∨
    (waiting = [] ∧ ∃ jobs', takeJob opts jobs = (none, jobs') ∧ jobs'.Represents []) := by
  unfold takeJob rest
  cases opts.type with
  | LIFO =>
    obtain ⟨hget, hrest⟩ := hjobs.pop
    rcases List.eq_nil_or_concat waiting with rfl | ⟨init, job, rfl⟩
    · exact .inr ⟨rfl, _, Prod.ext hget rfl, hrest⟩
    · rw [List.concat_eq_append, List.getLast?_concat] at hget
      rw [List.concat_eq_append, List.dropLast_concat] at hrest ⊢
      exact .inl ⟨job, _, Prod.ext hget rfl, List.perm_append_singleton job init, hrest⟩
  | FIFO =>
    obtain ⟨hget, hrest⟩ := hjobs.shift
    cases waiting with
    | nil => exact .inr ⟨rfl, _, Prod.ext hget rfl, hrest⟩
    | cons job waiting => exact .inl ⟨job, _, Prod.ext hget rfl, List.Perm.refl _, hrest⟩

theorem Core.runJob (h : Core opts this waiting)
    (haborted : this.aborted = true → waiting = []) :
    ∃ waiting', Inv opts (this.runJob opts) waiting' := by
  unfold JobItemQueue.runJob
  by_cases hstop : this.aborted ∨ opts.maxConcurrency ≤ (this.runningJobs : WithTop Nat)
  · rw [if_pos hstop]
    refine ⟨waiting, h, fun hconc hne => .inl ?_, haborted⟩
    rcases hstop with hstop | hfull
    · exact (hne (haborted hstop)).elim
    · exact Nat.cast_pos.1 (hconc.trans_le hfull)
  rw [if_neg hstop]
  rw [not_or, not_le] at hstop
  obtain ⟨hnot, hroom⟩ := hstop
  rcases takeJob_spec opts h.jobs with ⟨job, jobs, htake, hperm, hjobs⟩ | ⟨rfl, jobs, htake, hjobs⟩
  · rw [htake]
    refine ⟨rest opts.type waiting, ⟨hjobs, ?_, ?_, ?_⟩, fun _ _ => .inl (Nat.succ_pos _), ?_⟩
    · simp [h.count]
      omega
    · cases hmax : opts.maxConcurrency with
      | top => exact le_top
      | coe m =>
        rw [hmax] at hroom
        exact Nat.cast_le.2 (Nat.cast_lt.1 hroom)
    · refine h.ledger.perm ?_
      -- the job moves from those that wait to those that run
      have hmove := hperm.append_right this.processing
      rw [List.cons_append] at hmove
      refine hmove.trans ?_
      rw [← List.append_assoc]
      exact (List.perm_append_singleton job _).symm
    · exact fun haborted => absurd haborted hnot
  · rw [htake]
    exact ⟨[], ⟨hjobs, h.count, h.le, h.ledger⟩, fun _ hne => (hne rfl).elim, fun _ => rfl⟩

/-! ## The end of a job -/

theorem filter_promise {jobs : List (Job α)} {promise : Nat}
    (hnodup : (jobs.map (·.promise)).Nodup) (hmem : ∃ job ∈ jobs, job.promise = promise) :
    ∃ job, job.promise = promise ∧ jobs.Perm (job :: jobs.filter (·.promise ≠ promise)) ∧
      jobs.filter (·.promise = promise) = [job] := by
  induction jobs with
  | nil =>
    obtain ⟨job, hjob, -⟩ := hmem
    cases hjob
  | cons j jobs ih =>
    rw [List.map_cons, List.nodup_cons] at hnodup
    by_cases hj : j.promise = promise
    · subst hj
      have hother : ∀ job ∈ jobs, job.promise ≠ j.promise := fun job hjob heq =>
        hnodup.1 (List.mem_map.2 ⟨job, hjob, heq⟩)
      have hkeep : jobs.filter (·.promise ≠ j.promise) = jobs :=
        List.filter_eq_self.2 fun job hjob => decide_eq_true (hother job hjob)
      have hnone : jobs.filter (·.promise = j.promise) = [] :=
        List.filter_eq_nil_iff.2 fun job hjob => by simpa using hother job hjob
      refine ⟨j, rfl, ?_, ?_⟩
      · rw [List.filter_cons_of_neg (by simp), hkeep]
      · rw [List.filter_cons_of_pos (by simp), hnone]
    · obtain ⟨job, hjob, hid⟩ := hmem
      have hin : ∃ job ∈ jobs, job.promise = promise := by
        rcases List.mem_cons.1 hjob with rfl | hjob
        · exact (hj hid).elim
        · exact ⟨job, hjob, hid⟩
      obtain ⟨job, hid, hperm, honly⟩ := ih hnodup.2 hin
      refine ⟨job, hid, ?_, ?_⟩
      · rw [List.filter_cons_of_pos (by simpa using hj)]
        exact (hperm.cons j).trans (List.Perm.swap job j _)
      · rw [List.filter_cons_of_neg (by simpa using hj), honly]

theorem Core.settleProcessing (h : Core opts this waiting) {promise : Nat}
    (hp : this.isProcessing promise = true) (outcome : Except (JobError ε) ρ) :
    ∃ job, this.processing.filter (·.promise = promise) = [job] ∧
      this.processing.length = (this.processing.filter (·.promise ≠ promise)).length + 1 ∧
      Ledger (settle this.promises promise outcome)
        (waiting ++ this.processing.filter (·.promise ≠ promise)) (this.yielding ++ [job]) := by
  have hmem : ∃ job ∈ this.processing, job.promise = promise := by
    unfold isProcessing at hp
    obtain ⟨job, hjob, hid⟩ := List.any_eq_true.1 hp
    exact ⟨job, hjob, of_decide_eq_true hid⟩
  have hnodup : (this.processing.map (·.promise)).Nodup := by
    refine List.Sublist.nodup (List.Sublist.map _ ?_) h.ledger.nodup
    exact (List.sublist_append_right _ _).trans (List.sublist_append_left _ _)
  obtain ⟨job, rfl, hperm, honly⟩ := filter_promise hnodup hmem
  refine ⟨job, honly, by simpa using hperm.length_eq, ?_⟩
  refine (h.ledger.perm ?_).settle outcome
  exact (hperm.append_left waiting).trans List.perm_middle

theorem Core.finish (h : Inv opts this waiting) {promise : Nat}
    (hp : this.isProcessing promise = true) (outcome : Except (JobError ε) ρ) :
    ∃ waiting', Inv opts (({ this with
      promises := settle this.promises promise outcome }.leaveProcessing promise).finishJob opts)
        waiting' := by
  obtain ⟨job, -, hlength, hledger⟩ := h.toCore.settleProcessing hp outcome
  have hcount := h.count
  have hcore : Core opts { ({ this with
      promises := settle this.promises promise outcome }.leaveProcessing promise) with
        runningJobs := this.runningJobs - 1 } waiting := by
    refine ⟨h.jobs, ?_, ?_, hledger.sublist (List.sublist_append_left _ _)⟩
    · show this.runningJobs - 1 = (this.processing.filter _).length + this.yielding.length
      omega
    · exact (Nat.cast_le.2 (Nat.sub_le _ _)).trans h.le
  exact hcore.runJob h.aborted

theorem settle_settle (promises : List (JobPromise ρ ε)) (promise : Nat)
    (outcome outcome' : Except (JobError ε) ρ) :
    settle (settle promises promise outcome) promise outcome' = settle promises promise outcome := by
  unfold settle
  rw [List.modify_modify_eq]
  congr 1
  funext settled
  cases settled <;> rfl

/-! ## Steps -/

theorem Core.abortAllJobs {fuel : Nat} (h : Core opts this waiting) (hfuel : waiting.length ≤ fuel) :
    Core opts (abortAllJobs fuel this) [] := by
  induction fuel generalizing this waiting with
  | zero =>
    obtain rfl := List.length_eq_zero_iff.1 (Nat.le_zero.1 hfuel)
    exact h
  | succ fuel ih =>
    unfold JobItemQueue.abortAllJobs
    rw [h.jobs.length_eq]
    rcases List.eq_nil_or_concat waiting with rfl | ⟨init, job, rfl⟩
    · rw [if_neg (by simp)]
      exact h
    rw [List.concat_eq_append] at h hfuel ⊢
    obtain ⟨hget, hrest⟩ := h.jobs.pop
    rw [List.getLast?_concat] at hget
    rw [List.dropLast_concat] at hrest
    have hpop : this.jobs.pop = (some job, this.jobs.pop.2) := Prod.ext hget rfl
    rw [if_pos (by simp), hpop]
    have hfuel : init.length ≤ fuel := by simpa using hfuel
    refine ih ⟨hrest, h.count, h.le, ?_⟩ hfuel
    refine Ledger.sublist (Ledger.settle (h.ledger.perm ?_) _) (List.sublist_append_left _ _)
    rw [List.append_assoc]
    exact List.perm_middle

theorem Inv.addJob (h : Inv opts this waiting)
    (hnot : ¬ this.aborted = true) (args : α) :
    Inv opts (this.addJob opts args) (waiting ++ [⟨args, this.promises.length⟩]) := by
  unfold JobItemQueue.addJob
  obtain ⟨jobs, hpush, hjobs⟩ := h.jobs.push ⟨args, this.promises.length⟩
  dsimp only
  rw [hpush]
  refine ⟨⟨hjobs, h.count, h.le, (h.ledger.push args).perm ?_⟩, fun hconc _ => ?_,
    fun haborted => (hnot haborted).elim⟩
  · rw [List.append_assoc]
    exact List.perm_middle.symm
  · -- there is room for a call of `runJob`, or jobs run
    show 0 < this.runningJobs ∨ 0 < (if (this.runningJobs : WithTop Nat) < opts.maxConcurrency then
      this.scheduled + 1 else this.scheduled)
    by_cases hroom : (this.runningJobs : WithTop Nat) < opts.maxConcurrency
    · rw [if_pos hroom]
      exact .inr (Nat.succ_pos _)
    · exact .inl (Nat.cast_pos.1 (hconc.trans_le (not_lt.1 hroom)))

theorem Inv.push_eq (h : Inv opts this waiting) {args : α}
    (hkeeps : KeepsJobs opts this (.push args : QueueEvent α ρ ε))
    (hpush : this.push opts args = .ok this') :
    ¬ this.aborted = true ∧ ∃ jobs, Inv opts { this with jobs } waiting ∧
      this' = { this with jobs }.addJob opts args := by
  unfold JobItemQueue.push at hpush
  by_cases haborted : this.aborted = true
  · rw [if_pos haborted] at hpush
    cases hpush
  refine ⟨haborted, ?_⟩
  rw [if_neg haborted] at hpush
  by_cases hfull : opts.maxLength < ((this.jobs.length + 1 : Nat) : WithTop Nat)
  · rw [if_pos hfull] at hpush
    cases htype : opts.type with
    | LIFO =>
      -- the queue has no job to drop
      have hempty : waiting = [] := by
        rcases hkeeps htype with hzero | hle
        · rw [h.jobs.length_eq] at hzero
          exact List.length_eq_zero_iff.1 hzero
        · exact absurd hfull (not_lt.2 hle)
      subst hempty
      rw [htype] at hpush
      exact ⟨this.jobs.shift.2, ⟨⟨h.jobs.shift.2, h.count, h.le, h.ledger⟩, h.going, h.aborted⟩,
        (Except.ok.inj hpush).symm⟩
    | FIFO =>
      rw [htype] at hpush
      cases hpush
  · rw [if_neg hfull] at hpush
    exact ⟨this.jobs, h, (Except.ok.inj hpush).symm⟩

theorem Inv.step (h : Inv opts this waiting)
    {e : QueueEvent α ρ ε} (hkeeps : KeepsJobs opts this e)
    (hstep : this.step opts e = some this') : ∃ waiting', Inv opts this' waiting' := by
  cases e with
  | push args =>
    cases hpush : this.push opts args with
    | error code =>
      simp only [JobItemQueue.step, hpush, Option.some.injEq] at hstep
      subst hstep
      exact ⟨_, h⟩
    | ok pushed =>
      simp only [JobItemQueue.step, hpush, Option.some.injEq] at hstep
      subst hstep
      obtain ⟨hnot, jobs, hinv, rfl⟩ := h.push_eq hkeeps hpush
      exact ⟨_, hinv.addJob hnot args⟩
  | dropAllJobs =>
    obtain rfl := Option.some.inj hstep
    have hzero : this.jobs.length = 0 := hkeeps
    rw [h.jobs.length_eq] at hzero
    obtain rfl := List.length_eq_zero_iff.1 hzero
    exact ⟨[], ⟨LinkedList.Represents.clear, h.count, h.le, h.ledger⟩, h.going, h.aborted⟩
  | abort =>
    simp only [JobItemQueue.step] at hstep
    split_ifs at hstep with haborted
    · obtain rfl := Option.some.inj hstep
      exact ⟨_, h⟩
    · obtain rfl := Option.some.inj hstep
      have hcore : Core opts { this with aborted := true } waiting :=
        ⟨h.jobs, h.count, h.le, h.ledger⟩
      exact ⟨[], hcore.abortAllJobs (le_of_eq h.jobs.length_eq.symm), fun _ hne =>
        (hne rfl).elim, fun _ => rfl⟩
  | timeout =>
    simp only [JobItemQueue.step] at hstep
    split_ifs at hstep with hnone
    obtain rfl := Option.some.inj hstep
    have hcore : Core opts { this with scheduled := this.scheduled - 1 } waiting :=
      ⟨h.jobs, h.count, h.le, h.ledger⟩
    exact hcore.runJob h.aborted
  | processed promise result now =>
    simp only [JobItemQueue.step] at hstep
    by_cases hp : this.isProcessing promise = true
    · rw [if_neg (by simpa using hp)] at hstep
      split_ifs at hstep with hyield
      · obtain rfl := Option.some.inj hstep
        obtain ⟨job, honly, hlength, hledger⟩ := h.toCore.settleProcessing hp (.ok result)
        refine ⟨waiting, ⟨⟨h.jobs, ?_, h.le, ?_⟩, h.going, h.aborted⟩⟩
        · show this.runningJobs = (this.processing.filter _).length +
            (this.yielding ++ this.processing.filter _).length
          have hcount := h.count
          rw [honly, List.length_append, List.length_singleton]
          omega
        · show Ledger (settle this.promises promise (.ok result))
            (waiting ++ this.processing.filter _) (this.yielding ++ this.processing.filter _)
          rw [honly]
          exact hledger
      · obtain rfl := Option.some.inj hstep
        exact Core.finish h hp _
    · rw [if_pos (by simpa using hp)] at hstep
      cases hstep
  | failed promise error =>
    simp only [JobItemQueue.step] at hstep
    by_cases hp : this.isProcessing promise = true
    · rw [if_neg (by simpa using hp)] at hstep
      obtain rfl := Option.some.inj hstep
      exact Core.finish h hp _
    · rw [if_pos (by simpa using hp)] at hstep
      cases hstep
  | timerThrew promise result error =>
    simp only [JobItemQueue.step] at hstep
    by_cases hp : this.isProcessing promise = true
    · rw [if_neg (by simpa using hp), settle_settle] at hstep
      obtain rfl := Option.some.inj hstep
      exact Core.finish h hp _
    · rw [if_pos (by simpa using hp)] at hstep
      cases hstep
  | yielded promise =>
    simp only [JobItemQueue.step] at hstep
    by_cases hp : this.yielding.any (·.promise = promise) = true
    · rw [if_neg (by simpa using hp)] at hstep
      obtain rfl := Option.some.inj hstep
      have hnodup : (this.yielding.map (·.promise)).Nodup :=
        List.Sublist.nodup (List.Sublist.map _ (List.sublist_append_right _ _)) h.ledger.nodup
      have hmem : ∃ job ∈ this.yielding, job.promise = promise := by
        obtain ⟨job, hjob, hid⟩ := List.any_eq_true.1 hp
        exact ⟨job, hjob, of_decide_eq_true hid⟩
      obtain ⟨job, -, hperm, -⟩ := filter_promise hnodup hmem
      have hlength := hperm.length_eq
      have hcount := h.count
      rw [List.length_cons] at hlength
      have hcore : Core opts { this with
          yielding := this.yielding.filter (·.promise ≠ promise)
          runningJobs := this.runningJobs - 1 } waiting := by
        refine ⟨h.jobs, ?_, ?_, h.ledger.sublist List.filter_sublist⟩
        · show this.runningJobs - 1 = this.processing.length + (this.yielding.filter _).length
          omega
        · exact (Nat.cast_le.2 (Nat.sub_le _ _)).trans h.le
      exact hcore.runJob h.aborted
    · rw [if_pos (by simpa using hp)] at hstep
      cases hstep

/-! ## The promises of a step -/

@[simp] theorem runJob_promises : (this.runJob opts).promises = this.promises := by
  unfold JobItemQueue.runJob
  split_ifs
  · rfl
  · cases takeJob opts this.jobs with
    | mk job jobs => cases job <;> rfl

@[simp] theorem finishJob_promises : (this.finishJob opts).promises = this.promises :=
  runJob_promises

/-- What a step may do to the promise of a job. -/
inductive PromiseStep (e : QueueEvent α ρ ε) (promise : Nat) :
    Option (JobPromise ρ ε) → Option (JobPromise ρ ε) → Prop where
  | same {settled : Option (JobPromise ρ ε)} : outcome promise e = none →
      PromiseStep e promise settled settled
  | made : outcome promise e = none → PromiseStep e promise none (some none)
  | aborted : outcome promise e = none →
      PromiseStep e promise (some none) (some (some (.error (.queueError .QUEUE_ABORTED))))
  | ended {settled : Except (JobError ε) ρ} : outcome promise e = some settled →
      PromiseStep e promise (some none) (some (some settled))

variable {e : QueueEvent α ρ ε} {promise : Nat}

theorem addJob_promises (h : Core opts this waiting) {args : α} (hnone : outcome promise e = none) :
    PromiseStep e promise this.promises[promise]? (this.addJob opts args).promises[promise]? := by
  obtain ⟨jobs, hpush, -⟩ := h.jobs.push ⟨args, this.promises.length⟩
  unfold JobItemQueue.addJob
  dsimp only
  rw [hpush]
  rcases lt_trichotomy promise this.promises.length with hlt | rfl | hgt
  · rw [List.getElem?_append_left hlt]
    exact .same hnone
  · rw [List.getElem?_concat_length, List.getElem?_eq_none (le_refl _)]
    exact .made hnone
  · rw [List.getElem?_eq_none (le_of_lt hgt), List.getElem?_eq_none (by simpa using hgt)]
    exact .same hnone

theorem settle_cases (promises : List (JobPromise ρ ε)) (of promise : Nat)
    (outcome : Except (JobError ε) ρ) :
    (settle promises of outcome)[promise]? = promises[promise]? ∨
      (of = promise ∧ promises[promise]? = some none ∧
        (settle promises of outcome)[promise]? = some (some outcome)) := by
  by_cases heq : of = promise
  · subst heq
    cases hget : promises[of]? with
    | none =>
      left
      unfold settle
      rw [List.getElem?_modify_eq, hget]
      rfl
    | some settled =>
      cases settled with
      | none => exact .inr ⟨rfl, rfl, settle_self hget⟩
      | some settled => exact .inl (settle_of_settled hget)
  · exact .inl (settle_of_ne heq)

theorem abortAllJobs_promises (fuel : Nat) (this : JobItemQueue α ρ ε) (promise : Nat) :
    (abortAllJobs fuel this).promises[promise]? = this.promises[promise]? ∨
      (this.promises[promise]? = some none ∧ (abortAllJobs fuel this).promises[promise]? =
        some (some (.error (.queueError .QUEUE_ABORTED)))) := by
  induction fuel generalizing this with
  | zero => exact .inl rfl
  | succ fuel ih =>
    unfold JobItemQueue.abortAllJobs
    by_cases hpos : this.jobs.length > 0
    · rw [if_pos hpos]
      cases hpop : this.jobs.pop with
      | mk job jobs =>
        cases job with
        | none => exact ih { this with jobs }
        | some job =>
          have hrest := ih { this with
            jobs
            promises := settle this.promises job.promise
              (.error (.queueError .QUEUE_ABORTED)) }
          rcases settle_cases this.promises job.promise promise
            (.error (.queueError .QUEUE_ABORTED)) with hsame | ⟨-, hpending, hsettled⟩
          · dsimp only at hrest
            rwa [hsame] at hrest
          · dsimp only at hrest
            rw [hsettled] at hrest
            rcases hrest with hrest | ⟨habsurd, -⟩
            · exact .inr ⟨hpending, hrest⟩
            · cases habsurd
    · rw [if_neg hpos]
      exact .inl rfl

theorem settle_promises (h : Core opts this waiting) {of : Nat}
    (hp : this.isProcessing of = true) {settled : Except (JobError ε) ρ}
    (he : outcome promise e = if of = promise then some settled else none) :
    PromiseStep e promise this.promises[promise]? (settle this.promises of settled)[promise]? := by
  by_cases heq : of = promise
  · subst heq
    rw [if_pos rfl] at he
    obtain ⟨job, hjob, hid⟩ := List.any_eq_true.1 hp
    have hpending := h.ledger.pending job (List.mem_append_right _ hjob)
    rw [of_decide_eq_true hid] at hpending
    rw [settle_self hpending, hpending]
    exact .ended he
  · rw [if_neg heq] at he
    rw [settle_of_ne heq]
    exact .same he

theorem Inv.promiseStep (h : Inv opts this waiting) (hkeeps : KeepsJobs opts this e)
    (hstep : this.step opts e = some this') (promise : Nat) :
    PromiseStep e promise this.promises[promise]? this'.promises[promise]? := by
  cases e with
  | push args =>
    cases hpush : this.push opts args with
    | error code =>
      simp only [JobItemQueue.step, hpush, Option.some.injEq] at hstep
      subst hstep
      exact .same rfl
    | ok pushed =>
      simp only [JobItemQueue.step, hpush, Option.some.injEq] at hstep
      subst hstep
      obtain ⟨-, jobs, hinv, rfl⟩ := h.push_eq hkeeps hpush
      exact addJob_promises hinv.toCore rfl
  | dropAllJobs =>
    obtain rfl := Option.some.inj hstep
    exact .same rfl
  | abort =>
    simp only [JobItemQueue.step] at hstep
    split_ifs at hstep with haborted
    · obtain rfl := Option.some.inj hstep
      exact .same rfl
    · obtain rfl := Option.some.inj hstep
      rcases abortAllJobs_promises this.jobs.length { this with aborted := true } promise with
        hsame | ⟨hpending, hrejected⟩
      · rw [hsame]
        exact .same rfl
      · rw [hrejected, hpending]
        exact .aborted rfl
  | timeout =>
    simp only [JobItemQueue.step] at hstep
    split_ifs at hstep with hnone
    obtain rfl := Option.some.inj hstep
    rw [runJob_promises]
    exact .same rfl
  | processed of result now =>
    simp only [JobItemQueue.step] at hstep
    by_cases hp : this.isProcessing of = true
    · rw [if_neg (by simpa using hp)] at hstep
      have hend : PromiseStep (.processed of result now) promise this.promises[promise]?
          (settle this.promises of (.ok result))[promise]? := settle_promises h.toCore hp rfl
      split_ifs at hstep with hyield
      · obtain rfl := Option.some.inj hstep
        exact hend
      · obtain rfl := Option.some.inj hstep
        rw [finishJob_promises]
        exact hend
    · rw [if_pos (by simpa using hp)] at hstep
      cases hstep
  | failed of error =>
    simp only [JobItemQueue.step] at hstep
    by_cases hp : this.isProcessing of = true
    · rw [if_neg (by simpa using hp)] at hstep
      obtain rfl := Option.some.inj hstep
      rw [finishJob_promises]
      exact settle_promises h.toCore hp rfl
    · rw [if_pos (by simpa using hp)] at hstep
      cases hstep
  | timerThrew of result error =>
    simp only [JobItemQueue.step] at hstep
    by_cases hp : this.isProcessing of = true
    · rw [if_neg (by simpa using hp), settle_settle] at hstep
      obtain rfl := Option.some.inj hstep
      rw [finishJob_promises]
      exact settle_promises h.toCore hp rfl
    · rw [if_pos (by simpa using hp)] at hstep
      cases hstep
  | yielded of =>
    simp only [JobItemQueue.step] at hstep
    split_ifs at hstep with hp
    obtain rfl := Option.some.inj hstep
    rw [finishJob_promises]
    exact .same rfl

/-! ## Runs -/

theorem SettledOnce.step {events : List (QueueEvent α ρ ε)} (h : this.SettledOnce events)
    (hstep : ∀ promise, PromiseStep e promise this.promises[promise]? this'.promises[promise]?) :
    this'.SettledOnce (events ++ [e]) := by
  intro promise
  have hbefore := h promise
  have hone := hstep promise
  have hevents : (events ++ [e]).filterMap (outcome promise) =
      events.filterMap (outcome promise) ++ (outcome promise e).toList := by
    rw [List.filterMap_append]
    cases he : outcome promise e <;> simp [he]
  rw [hevents]
  generalize this.promises[promise]? = before at hbefore hone
  generalize this'.promises[promise]? = after at hone ⊢
  cases hone with
  | same hnone => simpa [hnone] using hbefore
  | made hnone => simpa [hnone] using hbefore
  | aborted hnone => exact .inr ⟨by simpa [hnone] using hbefore, rfl⟩
  | ended hsome =>
    left
    have hbefore : events.filterMap (outcome promise) = [] := hbefore
    rw [hbefore, hsome]
    rfl

theorem Run.inv {events : List (QueueEvent α ρ ε)} (h : Run opts (KeepsJobs opts) events this) :
    (∃ waiting, Inv opts this waiting) ∧ this.SettledOnce events := by
  induction h with
  | start => exact ⟨⟨[], inv_new⟩, fun promise => rfl⟩
  | step _ hkeeps hstep ih =>
    obtain ⟨⟨waiting, hinv⟩, hsettled⟩ := ih
    exact ⟨hinv.step hkeeps hstep, hsettled.step fun promise => hinv.promiseStep hkeeps hstep promise⟩

theorem Inv.isGoing (h : Inv opts this waiting) (hconc : 0 < opts.maxConcurrency)
    (hne : waiting ≠ []) : this.IsGoing := by
  rcases h.going hconc hne with hrunning | hscheduled
  · rw [h.count] at hrunning
    rcases Nat.add_pos_iff_pos_or_pos.1 hrunning with hpos | hpos
    · exact .inl (List.ne_nil_of_length_pos hpos)
    · exact .inr (.inl (List.ne_nil_of_length_pos hpos))
  · exact .inr (.inr hscheduled)

theorem Inv.accounted (h : Inv opts this waiting) : this.Accounted := by
  intro promise hlt
  have hwaiting : this.waiting = waiting := h.jobs.toArray_eq
  unfold IsWaiting IsRunning IsSettled
  rw [hwaiting]
  cases hget : this.promises[promise]? with
  | none => exact absurd hlt (not_lt.2 (List.getElem?_eq_none_iff.1 hget))
  | some settled =>
    cases settled with
    | none =>
      have hunsettled : ¬ ∃ outcome, some none = some (some outcome : JobPromise ρ ε) := by
        rintro ⟨outcome, habsurd⟩
        cases habsurd
      obtain ⟨job, hjob, hid⟩ := h.ledger.covered promise hget
      rcases List.mem_append.1 hjob with hjob | hjob
      · refine .inl ⟨⟨job, hjob, hid⟩, ?_, hunsettled⟩
        rintro ⟨other, hother, heq⟩
        exact h.ledger.ne_promise hjob hother (hid.trans heq.symm)
      · refine .inr (.inl ⟨?_, ⟨job, hjob, hid⟩, hunsettled⟩)
        rintro ⟨other, hother, heq⟩
        exact h.ledger.ne_promise hother hjob (heq.trans hid.symm)
    | some settled =>
      refine .inr (.inr ⟨?_, ?_, settled, rfl⟩)
      · rintro ⟨job, hjob, rfl⟩
        have hpending := h.ledger.pending job (List.mem_append_left _ hjob)
        rw [hget] at hpending
        cases hpending
      · rintro ⟨job, hjob, rfl⟩
        have hpending := h.ledger.pending job (List.mem_append_right _ hjob)
        rw [hget] at hpending
        cases hpending

/-- Without dropped jobs every promise is of one job that waits or runs, or settled once, as the
processor ended it or by the abort; the limit is kept and the queue goes on. -/
theorem jobs_settled_once {events : List (QueueEvent α ρ ε)}
    (h : Run opts (KeepsJobs opts) events this) :
    this.Accounted ∧ this.SettledOnce events ∧
      (this.runningJobs = this.processing.length + this.yielding.length ∧
        (this.runningJobs : WithTop Nat) ≤ opts.maxConcurrency) ∧
      (0 < opts.maxConcurrency → this.waiting ≠ [] → this.IsGoing) := by
  obtain ⟨⟨waiting, hinv⟩, hsettled⟩ := h.inv
  refine ⟨hinv.accounted, hsettled, ⟨hinv.count, hinv.le⟩, fun hconc hne => ?_⟩
  rw [JobItemQueue.waiting, hinv.jobs.toArray_eq] at hne
  exact hinv.isGoing hconc hne

/-! ## A queue for one job -/

def queueOfOne (type : QueueType) : JobQueueOpts :=
  { maxLength := 1, maxConcurrency := 1, yieldEveryMs := 50, type }

/-- The later push drops the first job, whose promise stays pending when all is done. -/
theorem dropped_job_not_accounted : ∃ this : JobItemQueue Nat Nat Nat,
    Run (queueOfOne .LIFO) (fun _ _ => True)
        [.push 10, .push 20, .timeout, .processed 1 21 5, .timeout] this ∧
      this.promises = [none, some (.ok 21)] ∧ this.waiting = [] ∧ this.processing = [] ∧
      this.yielding = [] ∧ this.scheduled = 0 ∧ ¬ this.Accounted := by
  have hrun : ∃ this : JobItemQueue Nat Nat Nat,
      Run (queueOfOne .LIFO) (fun _ _ => True)
          [.push 10, .push 20, .timeout, .processed 1 21 5, .timeout] this ∧
        this.promises = [none, some (.ok 21)] ∧ this.waiting = [] ∧ this.processing = [] ∧
        this.yielding = [] ∧ this.scheduled = 0 :=
    ⟨_, Run.step (Run.step (Run.step (Run.step (Run.step .start trivial rfl) trivial rfl)
      trivial rfl) trivial rfl) trivial rfl, rfl, rfl, rfl, rfl, rfl⟩
  obtain ⟨this, hrun, hpromises, hwaiting, hprocessing, hyielding, hscheduled⟩ := hrun
  refine ⟨this, hrun, hpromises, hwaiting, hprocessing, hyielding, hscheduled, fun h => ?_⟩
  rcases h 0 (by simp [hpromises]) with ⟨⟨job, hjob, -⟩, -⟩ | ⟨-, ⟨job, hjob, -⟩, -⟩ |
    ⟨-, -, outcome, houtcome⟩
  · rw [hwaiting] at hjob
    cases hjob
  · rw [hprocessing] at hjob
    cases hjob
  · rw [hpromises] at houtcome
    cases houtcome

/-- The second push is refused, the first job fails and the last one is aborted. -/
theorem jobs_settled_once_fifo : ∃ this : JobItemQueue Nat Nat Nat,
    Run (queueOfOne .FIFO) (KeepsJobs (queueOfOne .FIFO))
        [.push 10, .push 20, .timeout, .failed 0 7, .push 30, .abort] this ∧
      this.promises = [some (.error (.thrown 7)), some (.error (.queueError .QUEUE_ABORTED))] ∧
      this.Accounted := by
  have hpush : ∀ (this : JobItemQueue Nat Nat Nat) (args : Nat),
      KeepsJobs (queueOfOne .FIFO) this (.push args : QueueEvent Nat Nat Nat) := by
    intro this args htype
    cases htype
  have hrun : ∃ this : JobItemQueue Nat Nat Nat,
      Run (queueOfOne .FIFO) (KeepsJobs (queueOfOne .FIFO))
          [.push 10, .push 20, .timeout, .failed 0 7, .push 30, .abort] this ∧
        this.promises = [some (.error (.thrown 7)), some (.error (.queueError .QUEUE_ABORTED))] :=
    ⟨_, Run.step (e := .abort) (Run.step (Run.step (e := .failed 0 7) (Run.step (e := .timeout)
      (Run.step (Run.step .start (hpush _ 10) rfl) (hpush _ 20) rfl) trivial rfl) trivial rfl)
        (hpush _ 30) rfl) trivial rfl, rfl⟩
  obtain ⟨this, hrun, hpromises⟩ := hrun
  exact ⟨this, hrun, hpromises, (jobs_settled_once hrun).1⟩

end Lodestar.Util.JobItemQueue
