import Lodestar.Chain.BlsPool
import Lodestar.Chain.VerifiedSets

/-!
# The ledger of the BLS pool

Where the accepted jobs are, and that each operation of the pool moves them
from one place to another.
-/

namespace Lodestar.Chain

open Lodestar.Base
open Lodestar.Util (Job JobError)

variable {PublicKey Signature : Type} {bls : Bls PublicKey Signature}

namespace BlsPool

variable {this this' : BlsPool PublicKey}

/-! ## Where jobs are -/

variable (this) in
def buffered : List BlsJob := (this.bufferedJobs.map (·.jobs)).getD []

variable (this) in
def running : List BlsJob := this.workers.flatMap (·.package)

variable (this) in
def settledJobs : List BlsJob := this.settlements.map (·.1)

variable (this) in
/-- The jobs whose promises callers have. -/
def accepted : List BlsJob :=
  this.calls.flatMap fun call => call.promises.filterMap Except.toOption

variable (this) in
def places : List BlsJob := this.buffered ++ (this.jobs ++ (this.running ++ this.settledJobs))

variable (this) in
/-- The promises of the accepted jobs differ, and each job is at one place, once. -/
def Accounted : Prop :=
  (this.accepted.map (·.promise)).Nodup ∧ this.places.Perm this.accepted

variable (this) in
/-- After the abort a job is settled, or a worker has it. -/
def SettledAfterAbort : Prop :=
  this.aborted = true → ∀ job ∈ this.accepted, job ∈ this.running ∨ job ∈ this.settledJobs

variable (this) in
/-- A call resolves to whether its sets are all valid. -/
def Verdict (bls : Bls PublicKey Signature) (call : VerifyCall PublicKey) : Prop :=
  (this.result? call = some (.ok true) → ∀ set ∈ call.sets, set.IsValid bls) ∧
    (this.result? call = some (.ok false) → ∃ set ∈ call.sets, ¬ set.IsValid bls)

variable (this) in
/-- The results of a worker are those of its package, by position. -/
def WorkerCorrect (bls : Bls PublicKey Signature) : BlsEvent PublicKey → Prop
  | .workerResult worker results => ∀ jobs, this.workers[worker]? = some (.running jobs) →
      ∀ (i : Nat) (job : BlsJob) (isValid : Bool), jobs[i]? = some job →
        results[i]? = some (some (.success isValid)) →
          (isValid = true ↔ ∀ set ∈ job.args.sets, set.IsValid bls)
  | _ => True

/-- The events of a run of a new pool whose workers are correct. -/
inductive Run (bls : Bls PublicKey Signature) (blsVerifyAllMultiThread : Bool) (poolSize : Nat) :
    List (BlsEvent PublicKey) → BlsPool PublicKey → Prop where
  | start : Run bls blsVerifyAllMultiThread poolSize [] (.new poolSize)
  | step {events : List (BlsEvent PublicKey)} {this this' : BlsPool PublicKey}
      {e : BlsEvent PublicKey} : Run bls blsVerifyAllMultiThread poolSize events this →
      this.WorkerCorrect bls e → this.step bls blsVerifyAllMultiThread e = some this' →
      Run bls blsVerifyAllMultiThread poolSize (events ++ [e]) this'

/-! ## The ledger -/

/-- The places against the accepted jobs; the timeout is that of the buffer. -/
structure Ledger (bls : Bls PublicKey Signature) (this : BlsPool PublicKey)
    (accepted : List BlsJob) : Prop where
  places : this.places.Perm accepted
  promises : accepted.map (·.promise) = List.range this.nextJob
  timeouts : ∀ timeout ∈ this.timeouts, ∃ buffered, this.bufferedJobs = some buffered ∧
    buffered.timeout = timeout
  aborted : this.aborted = true → this.jobs = [] ∧ this.timeouts = []
  verdicts : ∀ job isValid, (job, .ok isValid) ∈ this.settlements →
    (isValid = true ↔ ∀ set ∈ job.args.sets, set.IsValid bls)

variable {accepted : List BlsJob} {job : BlsJob}

theorem ledger_new (poolSize : Nat) : Ledger bls (new poolSize : BlsPool PublicKey) [] where
  places := by
    have hrunning : (new poolSize : BlsPool PublicKey).running = [] := by
      simp [running, new, WorkerStatus.package]
    unfold BlsPool.places
    rw [hrunning]
    exact .refl _
  promises := rfl
  timeouts := fun _ h => by cases h
  aborted := fun h => by cases h
  verdicts := fun _ _ h => by cases h

theorem running_setWorker {worker : Nat} {old : WorkerStatus}
    (h : this.workers[worker]? = some old) (status : WorkerStatus) :
    (old.package ++ (this.setWorker worker status).running).Perm (status.package ++ this.running) := by
  obtain ⟨hlt, rfl⟩ := List.getElem?_eq_some_iff.1 h
  have hbefore := (List.getElem_cons_eraseIdx_perm hlt).flatMap_right WorkerStatus.package
  have hafter := (List.set_perm_cons_eraseIdx hlt status).flatMap_right WorkerStatus.package
  rw [List.flatMap_cons] at hbefore hafter
  unfold running setWorker
  refine (hafter.append_left _).trans ?_
  refine List.Perm.trans ?_ (hbefore.append_left _)
  exact List.perm_append_comm_assoc _ _ _

theorem Ledger.timeouts_eq_nil (h : Ledger bls this accepted) (hnone : this.bufferedJobs = none) :
    this.timeouts = [] := by
  refine List.eq_nil_iff_forall_not_mem.2 fun timeout hmem => ?_
  obtain ⟨b, hb, -⟩ := h.timeouts timeout hmem
  rw [hnone] at hb
  cases hb

theorem Ledger.timeout_eq (h : Ledger bls this accepted) {b : BufferedJobs}
    (hb : this.bufferedJobs = some b) : ∀ timeout ∈ this.timeouts, timeout = b.timeout := by
  intro timeout hmem
  obtain ⟨b', hb', rfl⟩ := h.timeouts timeout hmem
  rw [hb] at hb'
  cases hb'
  rfl

theorem Ledger.clearTimeout (h : Ledger bls this accepted) {b : BufferedJobs}
    (hb : this.bufferedJobs = some b) : (this.clearTimeout b.timeout).timeouts = [] :=
  List.filter_eq_nil_iff.2 fun timeout hmem => by simp [h.timeout_eq hb timeout hmem]

theorem Ledger.runBufferedJobs (h : Ledger bls this accepted) (haborted : this.aborted = false)
    (htimeouts : this.timeouts = []) : Ledger bls this.runBufferedJobs accepted := by
  unfold BlsPool.runBufferedJobs
  cases hbuffered : this.bufferedJobs with
  | none => exact h
  | some b =>
    refine ⟨?_, h.promises, fun t ht => ?_, fun habsurd => ?_, h.verdicts⟩
    · have hplaces := h.places
      unfold BlsPool.places buffered at hplaces
      rw [hbuffered] at hplaces
      refine List.Perm.trans ?_ hplaces
      show (([] : List BlsJob) ++ ((this.jobs ++ b.jobs) ++ (this.running ++ this.settledJobs))).Perm
        (b.jobs ++ (this.jobs ++ (this.running ++ this.settledJobs)))
      rw [List.nil_append, List.append_assoc]
      exact List.perm_append_comm_assoc _ _ _
    · change t ∈ this.timeouts at ht
      rw [htimeouts] at ht
      cases ht
    · change this.aborted = true at habsurd
      rw [haborted] at habsurd
      cases habsurd

theorem Ledger.putInBuffer (h : Ledger bls this accepted) (haborted : this.aborted = false)
    (hjob : job.promise = this.nextJob) {b : BufferedJobs} (hb : b.jobs = this.buffered ++ [job])
    {t : List Nat} (ht : ∀ timeout ∈ t, timeout = b.timeout) (nextTimeout : Nat) :
    Ledger bls { this with
      nextJob := this.nextJob + 1, bufferedJobs := some b, timeouts := t, nextTimeout }
      (accepted ++ [job]) := by
  refine ⟨?_, ?_, fun timeout hmem => ⟨b, rfl, (ht timeout hmem).symm⟩, fun habsurd => ?_,
    h.verdicts⟩
  · show (b.jobs ++ (this.jobs ++ (this.running ++ this.settledJobs))).Perm (accepted ++ [job])
    rw [hb, List.append_assoc]
    refine List.Perm.trans ?_ (h.places.append_right [job])
    unfold BlsPool.places
    rw [List.append_assoc]
    exact List.perm_append_comm.append_left _
  · rw [List.map_append, h.promises, List.map_singleton, hjob, ← List.range_succ]
  · change this.aborted = true at habsurd
    rw [haborted] at habsurd
    cases habsurd

theorem Ledger.flush (h : Ledger bls this accepted) (haborted : this.aborted = false)
    {b : BufferedJobs} (hb : this.bufferedJobs = some b) :
    Ledger bls (this.clearTimeout b.timeout).runBufferedJobs accepted := by
  have hcleared := h.clearTimeout hb
  refine Ledger.runBufferedJobs ⟨h.places, h.promises, fun timeout hmem => ?_, fun habsurd => ?_,
    h.verdicts⟩ haborted hcleared
  · rw [hcleared] at hmem
    cases hmem
  · exact ⟨(h.aborted habsurd).1, hcleared⟩

theorem Ledger.bufferJob (h : Ledger bls this accepted) (haborted : this.aborted = false)
    (hjob : job.promise = this.nextJob) :
    Ledger bls ({ this with nextJob := this.nextJob + 1 }.bufferJob job) (accepted ++ [job]) := by
  unfold BlsPool.bufferJob openBuffer
  cases hbuffered : this.bufferedJobs with
  | none =>
    have hempty := h.timeouts_eq_nil hbuffered
    have hput := h.putInBuffer haborted hjob
      (b := ⟨[] ++ [job], 0 + job.args.sets.length, this.nextTimeout⟩)
      (by simp [buffered, hbuffered]) (t := this.timeouts ++ [this.nextTimeout])
      (by simp [hempty]) (this.nextTimeout + 1)
    dsimp only
    split
    · exact hput.flush haborted rfl
    · exact hput
  | some b =>
    have hput := h.putInBuffer haborted hjob
      (b := ⟨b.jobs ++ [job], b.sigCount + job.args.sets.length, b.timeout⟩)
      (by simp [buffered, hbuffered]) (t := this.timeouts)
      (fun timeout hmem => h.timeout_eq hbuffered timeout hmem) this.nextTimeout
    dsimp only
    split
    · exact hput.flush haborted
        (b := ⟨b.jobs ++ [job], b.sigCount + job.args.sets.length, b.timeout⟩) rfl
    · exact hput

theorem Ledger.putInQueue (h : Ledger bls this accepted) (haborted : this.aborted = false)
    (hjob : job.promise = this.nextJob) :
    Ledger bls { this with nextJob := this.nextJob + 1, jobs := this.jobs ++ [job] }.scheduleRunJob
      (accepted ++ [job]) := by
  refine ⟨?_, ?_, h.timeouts, fun habsurd => ?_, h.verdicts⟩
  · show (this.buffered ++ ((this.jobs ++ [job]) ++ (this.running ++ this.settledJobs))).Perm
      (accepted ++ [job])
    refine List.Perm.trans ?_ (h.places.append_right [job])
    unfold BlsPool.places
    rw [List.append_assoc, List.append_assoc, List.append_assoc]
    exact (List.perm_append_comm.append_left _).append_left _
  · rw [List.map_append, h.promises, List.map_singleton, hjob, ← List.range_succ]
    rfl
  · change this.aborted = true at habsurd
    rw [haborted] at habsurd
    cases habsurd

theorem Ledger.queueBlsWork (h : Ledger bls this accepted) {workReq : BlsWorkReq}
    (hok : this.queueBlsWork workReq = .ok (job, this')) :
    job.args = workReq ∧ Ledger bls this' (accepted ++ [job]) := by
  unfold BlsPool.queueBlsWork at hok
  by_cases haborted : this.aborted = true
  · rw [if_pos haborted] at hok
    cases hok
  have hfalse := Bool.eq_false_iff.2 haborted
  rw [if_neg haborted] at hok
  split at hok
  · cases hok
  · obtain ⟨rfl, rfl⟩ := Prod.mk.inj (Except.ok.inj hok)
    split_ifs
    · exact ⟨rfl, h.bufferJob hfalse rfl⟩
    · exact ⟨rfl, h.putInQueue hfalse rfl⟩

/-! ## Calls -/

theorem runBufferedJobs_frame : this.runBufferedJobs.calls = this.calls ∧
    this.runBufferedJobs.aborted = this.aborted := by
  unfold runBufferedJobs
  split <;> exact ⟨rfl, rfl⟩

theorem bufferJob_frame : (this.bufferJob job).calls = this.calls ∧
    (this.bufferJob job).aborted = this.aborted := by
  unfold bufferJob openBuffer
  cases this.bufferedJobs with
  | none =>
    dsimp only
    split
    · exact runBufferedJobs_frame
    · exact ⟨rfl, rfl⟩
  | some b =>
    dsimp only
    split
    · exact runBufferedJobs_frame
    · exact ⟨rfl, rfl⟩

theorem queueBlsWork_frame {workReq : BlsWorkReq}
    (hok : this.queueBlsWork workReq = .ok (job, this')) :
    this'.calls = this.calls ∧ this'.aborted = this.aborted := by
  unfold queueBlsWork at hok
  split at hok
  · cases hok
  · split at hok
    · cases hok
    · obtain ⟨rfl, rfl⟩ := Prod.mk.inj (Except.ok.inj hok)
      split_ifs
      · exact bufferJob_frame
      · exact ⟨rfl, rfl⟩

/-- The job of a promise has the sets of its chunk. -/
def IsChunk (bls : Bls PublicKey Signature) (setsWorker : List (ISignatureSet PublicKey))
    (promise : Except (JobError String) BlsJob) : Prop :=
  ∀ job, promise = .ok job → setsWorker.mapM (serializeSet bls) = .ok job.args.sets

theorem Ledger.queueChunks (h : Ledger bls this accepted) (opts : VerifySignatureOpts)
    (chunks : List (List (ISignatureSet PublicKey)))
    {promises : List (Except (JobError String) BlsJob)} {returned : Option BlsOutcome}
    (heq : BlsPool.queueChunks bls opts chunks this = (promises, returned, this')) :
    Ledger bls this' (accepted ++ promises.filterMap Except.toOption) ∧
      (this'.calls = this.calls ∧ this'.aborted = this.aborted) ∧
      (returned = none ∧ List.Forall₂ (IsChunk bls) chunks promises ∨
        ∃ e, returned = some (.error e)) := by
  induction chunks generalizing this accepted promises with
  | nil =>
    cases heq
    refine ⟨?_, ⟨rfl, rfl⟩, .inl ⟨rfl, .nil⟩⟩
    rwa [List.filterMap_nil, List.append_nil]
  | cons setsWorker chunks ih =>
    unfold BlsPool.queueChunks at heq
    cases hsets : setsWorker.mapM (serializeSet bls) with
    | error e =>
      rw [hsets] at heq
      cases heq
      refine ⟨?_, ⟨rfl, rfl⟩, .inr ⟨_, rfl⟩⟩
      rwa [List.filterMap_nil, List.append_nil]
    | ok sets =>
      rw [hsets] at heq
      dsimp only at heq
      cases hqueue : this.queueBlsWork ⟨opts, sets⟩ with
      | error e =>
        rw [hqueue] at heq
        obtain ⟨rfl, rfl, rfl⟩ := heq
        obtain ⟨hledger, hframe, hreturned⟩ := ih h rfl
        refine ⟨hledger, hframe, hreturned.imp_left fun hnone => ⟨hnone.1, .cons ?_ hnone.2⟩⟩
        rintro job ⟨⟩
      | ok queued =>
        obtain ⟨job, that⟩ := queued
        rw [hqueue] at heq
        obtain ⟨rfl, rfl, rfl⟩ := heq
        obtain ⟨hargs, hthat⟩ := h.queueBlsWork hqueue
        obtain ⟨hledger, hframe, hreturned⟩ := ih hthat rfl
        have hqueued := queueBlsWork_frame hqueue
        refine ⟨?_, ⟨hframe.1.trans hqueued.1, hframe.2.trans hqueued.2⟩,
          hreturned.imp_left fun hnone => ⟨hnone.1, .cons ?_ hnone.2⟩⟩
        · rwa [List.append_assoc] at hledger
        · rintro job ⟨⟩
          rw [hsets, hargs]

/-! ## Workers and the abort -/

theorem prepareWork_append (totalSigs : Nat) (jobs : List BlsJob) :
    (prepareWork totalSigs jobs).1 ++ (prepareWork totalSigs jobs).2 = jobs := by
  induction jobs generalizing totalSigs with
  | nil => rfl
  | cons job jobs ih =>
    unfold prepareWork
    split
    · simp [ih]
    · rfl

theorem map_fst_unwrapPackage (jobs : List BlsJob) (results : List (Option WorkResult)) :
    (unwrapPackage jobs results).map (·.1) = jobs := by
  unfold unwrapPackage
  rw [List.map_map]
  exact List.zipIdx_map_fst 0 jobs

theorem mem_unwrapPackage {jobs : List BlsJob} {results : List (Option WorkResult)} {isValid : Bool}
    (h : (job, .ok isValid) ∈ unwrapPackage jobs results) :
    ∃ i : Nat, jobs[i]? = some job ∧ results[i]? = some (some (.success isValid)) := by
  unfold unwrapPackage at h
  obtain ⟨⟨queued, i⟩, hmem, heq⟩ := List.mem_map.1 h
  obtain ⟨rfl, hresult⟩ := Prod.mk.inj heq
  refine ⟨i, by simpa using List.mem_zipIdx_iff_getElem?.1 hmem, ?_⟩
  cases hget : results[i]? with
  | none =>
    rw [hget] at hresult
    cases hresult
  | some result =>
    rw [hget] at hresult
    cases result with
    | none => cases hresult
    | some result =>
      cases result with
      | success result =>
        cases hresult
        rfl
      | error e => cases hresult

theorem Ledger.setWorker (h : Ledger bls this accepted) {worker : Nat} {old : WorkerStatus}
    (hold : this.workers[worker]? = some old) (status : WorkerStatus)
    (hpackage : old.package = status.package) :
    Ledger bls (this.setWorker worker status) accepted := by
  refine ⟨?_, h.promises, h.timeouts, h.aborted, h.verdicts⟩
  have hrunning := running_setWorker hold status
  rw [hpackage] at hrunning
  have hrunning := (List.perm_append_left_iff _).1 hrunning
  refine List.Perm.trans ?_ h.places
  exact ((hrunning.append_right _).append_left _).append_left _

theorem Ledger.scheduleRunJob (h : Ledger bls this accepted) :
    Ledger bls this.scheduleRunJob accepted :=
  ⟨h.places, h.promises, h.timeouts, h.aborted, h.verdicts⟩

theorem Ledger.runJob (h : Ledger bls this accepted) : Ledger bls this.runJob accepted := by
  unfold BlsPool.runJob
  split
  · exact h
  · next haborted =>
    split
    · exact h
    · next worker hidle =>
      dsimp only
      split
      · exact h
      · obtain ⟨hlt, hisIdle, -⟩ := List.findIdx?_eq_some_iff_getElem.1 hidle
        have hworker : this.workers[worker]? = some .idle := by
          rw [List.getElem?_eq_getElem hlt]
          revert hisIdle
          cases this.workers[worker] <;> simp [WorkerStatus.isIdle]
        refine ⟨?_, h.promises, h.timeouts, fun habsurd => (haborted habsurd).elim, h.verdicts⟩
        have hrunning := running_setWorker hworker (.running (prepareWork 0 this.jobs).1)
        have hplaces := h.places
        unfold BlsPool.places at hplaces ⊢
        rw [← prepareWork_append 0 this.jobs] at hplaces
        rw [List.perm_iff_count] at hplaces hrunning ⊢
        intro job
        have hplaces := hplaces job
        have hrunning := hrunning job
        simp only [List.count_append] at hplaces hrunning ⊢
        change List.count job this.buffered + (List.count job (prepareWork 0 this.jobs).2 +
          (List.count job (this.setWorker worker (.running (prepareWork 0 this.jobs).1)).running +
            List.count job this.settledJobs)) = _
        change List.count job [] + _ = List.count job (prepareWork 0 this.jobs).1 + _ at hrunning
        rw [List.count_nil] at hrunning
        omega

theorem Ledger.finishJob (h : Ledger bls this accepted) {worker : Nat} {jobs : List BlsJob}
    (hworker : this.workers[worker]? = some (.running jobs))
    {settlements : List (BlsJob × BlsOutcome)} (hjobs : settlements.map (·.1) = jobs)
    (hverdicts : ∀ job isValid, (job, .ok isValid) ∈ settlements →
      (isValid = true ↔ ∀ set ∈ job.args.sets, set.IsValid bls)) :
    Ledger bls (this.finishJob worker settlements) accepted := by
  refine ⟨?_, h.promises, h.timeouts, h.aborted, fun job isValid hmem => ?_⟩
  · have hrunning := running_setWorker hworker .idle
    have hplaces := h.places
    unfold BlsPool.places at hplaces ⊢
    rw [List.perm_iff_count] at hplaces hrunning ⊢
    intro job
    have hplaces := hplaces job
    have hrunning := hrunning job
    have hsettled : (this.finishJob worker settlements).settledJobs = this.settledJobs ++ jobs := by
      rw [← hjobs]
      exact List.map_append
    rw [hsettled]
    simp only [List.count_append] at hplaces hrunning ⊢
    change List.count job this.buffered + (List.count job this.jobs +
      (List.count job (this.setWorker worker .idle).running +
        (List.count job this.settledJobs + List.count job jobs))) = _
    change List.count job jobs + _ = List.count job [] + _ at hrunning
    rw [List.count_nil] at hrunning
    omega
  · rcases List.mem_append.1 hmem with hmem | hmem
    · exact h.verdicts job isValid hmem
    · exact hverdicts job isValid hmem

theorem Ledger.abort_eq (h : Ledger bls this accepted) :
    this.abort = { { this with aborted := true }.abortAllJobs with timeouts := [] } := by
  unfold BlsPool.abort
  dsimp only
  cases hbuffered : this.bufferedJobs with
  | none =>
    have hempty := h.timeouts_eq_nil hbuffered
    unfold abortAllJobs settle
    simp [hempty]
  | some b =>
    have hcleared := h.clearTimeout hbuffered
    unfold BlsPool.clearTimeout at hcleared
    unfold abortAllJobs settle BlsPool.clearTimeout
    simpa [hbuffered] using hcleared

theorem Ledger.abort (h : Ledger bls this accepted) : Ledger bls this.abort accepted := by
  rw [h.abort_eq]
  refine ⟨?_, h.promises, fun timeout hmem => (by cases hmem), fun _ => ⟨rfl, rfl⟩,
    fun job isValid hmem => ?_⟩
  · have hsettled : ({ this with aborted := true } : BlsPool PublicKey).abortAllJobs.settledJobs =
        this.settledJobs ++ this.jobs := by
      unfold settledJobs abortAllJobs settle
      simp [Function.comp_def]
    refine List.Perm.trans ?_ h.places
    show (this.buffered ++ ([] ++ (this.running ++
      ({ this with aborted := true } : BlsPool PublicKey).abortAllJobs.settledJobs))).Perm _
    rw [hsettled, List.nil_append]
    refine List.Perm.append_left _ ?_
    rw [← List.append_assoc]
    exact List.perm_append_comm
  · rcases List.mem_append.1 hmem with hmem | hmem
    · exact h.verdicts job isValid hmem
    · obtain ⟨_, -, heq⟩ := List.mem_map.1 hmem
      cases heq

end BlsPool

end Lodestar.Chain
