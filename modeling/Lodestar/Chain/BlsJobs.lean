import Lodestar.Chain.BlsLedger

/-!
# The jobs of the BLS pool

Each accepted job is buffered, queued, in the package of a worker, or settled
once. The abort settles the queued jobs and forgets the buffered ones.
-/

namespace Lodestar.Chain

open Lodestar.Base
open Lodestar.Util (Job JobError)

variable {PublicKey Signature : Type} {bls : Bls PublicKey Signature}

namespace BlsPool

variable {this this' : BlsPool PublicKey} {accepted : List BlsJob} {job : BlsJob}

/-! ## Runs -/

/-- What is known of a call: its chunks have promises, or it ended as it should. -/
structure CallOk (bls : Bls PublicKey Signature) (call : VerifyCall PublicKey) : Prop where
  chunks : call.returned = none → List.Forall₂ (IsChunk bls)
    (chunkifyMaximizeChunkSize call.sets MAX_SIGNATURE_SETS_PER_JOB) call.promises
  returned : ∀ isValid, call.returned = some (.ok isValid) →
    (isValid = true ↔ ∀ set ∈ call.sets, set.IsValid bls)

structure Inv (bls : Bls PublicKey Signature) (this : BlsPool PublicKey) : Prop where
  ledger : Ledger bls this this.accepted
  calls : ∀ call ∈ this.calls, CallOk bls call

theorem Ledger.withCall (h : Ledger bls this accepted) (calls : List (VerifyCall PublicKey)) :
    Ledger bls { this with calls } accepted :=
  ⟨h.places, h.promises, h.timeouts, h.aborted, h.verdicts⟩

theorem isValid_iff_of_deserializedSet {set : ISignatureSet PublicKey}
    {deserialized : SignatureSetDeserialized PublicKey}
    (h : deserializedSet bls set = .ok deserialized) :
    set.IsValid bls ↔ deserialized.IsValid bls := by
  obtain ⟨pubkey, hpubkey, h⟩ := eq_ok_of_bind h
  cases h
  unfold ISignatureSet.IsValid SignatureSetDeserialized.IsValid
  rw [hpubkey]
  simp

theorem isValid_iff_of_serializeSet (hbls : bls.Lawful) {set : ISignatureSet PublicKey}
    {serialized : SerializedSet} (h : serializeSet bls set = .ok serialized) :
    set.IsValid bls ↔ serialized.IsValid bls := by
  obtain ⟨pubkey, hpubkey, h⟩ := eq_ok_of_bind h
  cases h
  unfold ISignatureSet.IsValid SerializedSet.IsValid
  rw [hpubkey, hbls.publicKeyFromBytes_toBytes]

theorem callOk_mainThread (hbls : bls.Lawful) (sets : List (ISignatureSet PublicKey)) :
    CallOk bls ⟨sets, [], some ((sets.mapM (deserializedSet bls) >>=
      verifySignatureSetsMaybeBatch bls).mapError .thrown)⟩ := by
  refine ⟨fun h => (by cases h), fun isValid h => ?_⟩
  obtain ⟨deserialized, hsets, hverify⟩ :=
    eq_ok_of_bind (eq_ok_of_mapError (Option.some.inj h))
  rw [verifySignatureSetsMaybeBatch_iff hbls hverify]
  exact (forall_mem_iff_of_forall₂ (forall₂_of_mapM hsets) fun set _ deserialized hset =>
    isValid_iff_of_deserializedSet hset).symm

theorem Inv.verifySignatureSets (hbls : bls.Lawful) (h : Inv bls this)
    (blsVerifyAllMultiThread : Bool) (sets : List (ISignatureSet PublicKey))
    (opts : VerifySignatureOpts) :
    Inv bls (this.verifySignatureSets bls blsVerifyAllMultiThread sets opts) := by
  unfold BlsPool.verifySignatureSets
  split
  · refine ⟨?_, fun call hcall => ?_⟩
    · have haccepted : ∀ returned : Option BlsOutcome,
          ({ this with calls := this.calls ++ [⟨sets, [], returned⟩] } : BlsPool PublicKey).accepted =
            this.accepted := by
        intro returned
        simp [BlsPool.accepted]
      rw [haccepted]
      exact h.ledger.withCall _
    · rcases List.mem_append.1 hcall with hcall | hcall
      · exact h.calls call hcall
      · obtain rfl := List.mem_singleton.1 hcall
        exact callOk_mainThread hbls sets
  · generalize hqueue : queueChunks bls opts
      (chunkifyMaximizeChunkSize sets MAX_SIGNATURE_SETS_PER_JOB) this = queued
    obtain ⟨promises, returned, that⟩ := queued
    obtain ⟨hledger, ⟨hcalls, -⟩, hreturned⟩ := h.ledger.queueChunks opts _ hqueue
    dsimp only
    refine ⟨?_, fun call hcall => ?_⟩
    · have haccepted : ({ that with calls := that.calls ++ [⟨sets, promises, returned⟩] } :
          BlsPool PublicKey).accepted = this.accepted ++ promises.filterMap Except.toOption := by
        simp [BlsPool.accepted, hcalls]
      rw [haccepted]
      exact hledger.withCall _
    · rw [hcalls] at hcall
      rcases List.mem_append.1 hcall with hcall | hcall
      · exact h.calls call hcall
      · obtain rfl := List.mem_singleton.1 hcall
        rcases hreturned with ⟨rfl, hchunks⟩ | ⟨e, rfl⟩
        · exact ⟨fun _ => hchunks, fun isValid habsurd => (by cases habsurd)⟩
        · exact ⟨fun habsurd => (by cases habsurd), fun isValid habsurd => (by cases habsurd)⟩

/-- Only calls of `verifySignatureSets` accept jobs. -/
theorem Inv.of_ledger (h : Inv bls this) (hcalls : this'.calls = this.calls)
    (hledger : Ledger bls this' this.accepted) : Inv bls this' := by
  refine ⟨?_, hcalls ▸ h.calls⟩
  rwa [show this'.accepted = this.accepted from congrArg (List.flatMap _) hcalls]

theorem runJob_calls : this.runJob.calls = this.calls := by
  unfold runJob
  split
  · rfl
  · split
    · rfl
    · dsimp only
      split <;> rfl

theorem abort_calls : this.abort.calls = this.calls := by
  unfold abort
  dsimp only
  split <;> rfl

/-- Every event keeps the invariant. -/
theorem Inv.step (hbls : bls.Lawful) (h : Inv bls this) {blsVerifyAllMultiThread : Bool}
    {e : BlsEvent PublicKey} (hcorrect : this.WorkerCorrect bls e)
    (hstep : this.step bls blsVerifyAllMultiThread e = some this') : Inv bls this' := by
  cases e with
  | verifySignatureSets sets opts =>
    cases hstep
    exact h.verifySignatureSets hbls _ _ _
  | initialized worker =>
    simp only [BlsPool.step] at hstep
    split at hstep
    · next hworker =>
      cases hstep
      exact h.of_ledger rfl ((h.ledger.setWorker hworker .idle rfl).scheduleRunJob)
    · cases hstep
  | failed worker error =>
    simp only [BlsPool.step] at hstep
    split at hstep
    · next hworker =>
      cases hstep
      exact h.of_ledger rfl (h.ledger.setWorker hworker _ rfl)
    · cases hstep
  | bufferTimeout timeout =>
    simp only [BlsPool.step] at hstep
    split at hstep
    · next hmem =>
      cases hstep
      have haborted : this.aborted = false := by
        by_contra habsurd
        rw [(h.ledger.aborted (Bool.not_eq_false _ ▸ habsurd)).2] at hmem
        cases hmem
      obtain ⟨b, hb, rfl⟩ := h.ledger.timeouts timeout hmem
      exact h.of_ledger runBufferedJobs_frame.1 (h.ledger.flush haborted hb)
    · cases hstep
  | runJob =>
    simp only [BlsPool.step] at hstep
    split at hstep
    · cases hstep
    · cases hstep
      refine h.of_ledger runJob_calls (Ledger.runJob ?_)
      exact ⟨h.ledger.places, h.ledger.promises, h.ledger.timeouts, h.ledger.aborted,
        h.ledger.verdicts⟩
  | workerResult worker results =>
    simp only [BlsPool.step] at hstep
    split at hstep
    · next jobs hworker =>
      cases hstep
      refine h.of_ledger rfl (h.ledger.finishJob hworker (map_fst_unwrapPackage jobs results) ?_)
      intro job isValid hmem
      obtain ⟨i, hjob, hresult⟩ := mem_unwrapPackage hmem
      exact hcorrect jobs hworker i job isValid hjob hresult
    · cases hstep
  | workerError worker error =>
    simp only [BlsPool.step] at hstep
    split at hstep
    · next jobs hworker =>
      cases hstep
      refine h.of_ledger rfl (h.ledger.finishJob hworker ?_ ?_)
      · simp [Function.comp_def]
      · intro job isValid hmem
        obtain ⟨_, -, heq⟩ := List.mem_map.1 hmem
        cases heq
    · cases hstep
  | abort =>
    simp only [BlsPool.step] at hstep
    split at hstep
    · cases hstep
    · cases hstep
      exact h.of_ledger abort_calls h.ledger.abort

variable {blsVerifyAllMultiThread : Bool} {poolSize : Nat} {events : List (BlsEvent PublicKey)}

theorem Run.inv (hbls : bls.Lawful) (h : Run bls blsVerifyAllMultiThread poolSize events this) :
    Inv bls this := by
  induction h with
  | start => exact ⟨ledger_new poolSize, fun call hcall => by cases hcall⟩
  | step _ hcorrect hstep ih => exact ih.step hbls hcorrect hstep

/-! ## Verdicts -/

theorem forall₂_of_mapM_option {α β : Type} {f : α → Option β} {l : List α} {l' : List β}
    (h : l.mapM f = some l') : List.Forall₂ (fun a b => f a = some b) l l' := by
  induction l generalizing l' with
  | nil =>
    cases h
    exact .nil
  | cons a l ih =>
    rw [List.mapM_cons] at h
    obtain ⟨b, hb, h⟩ := Option.bind_eq_some_iff.1 h
    obtain ⟨bs, hbs, h⟩ := Option.bind_eq_some_iff.1 h
    cases h
    exact .cons hb (ih hbs)

theorem Ledger.job_eq (h : Ledger bls this accepted) {other : BlsJob} (hjob : job ∈ accepted)
    (hother : other ∈ accepted) (heq : job.promise = other.promise) : job = other :=
  List.inj_on_of_nodup_map (h.promises ▸ List.nodup_range) hjob hother heq

theorem exists_of_outcome? {outcome : BlsOutcome} (h : this.outcome? job = some outcome) :
    ∃ settled, (settled, outcome) ∈ this.settlements ∧ settled.promise = job.promise := by
  obtain ⟨⟨settled, outcome'⟩, hfind, rfl⟩ := Option.map_eq_some_iff.1 h
  exact ⟨settled, List.mem_of_find?_eq_some hfind, by simpa using List.find?_some hfind⟩

theorem outcome?_of_value? {isValid : Bool} (h : this.value? (.ok job) = some isValid) :
    this.outcome? job = some (.ok isValid) := by
  unfold value? at h
  dsimp only at h
  split at h
  · next houtcome =>
    cases h
    exact houtcome
  · cases h

theorem Ledger.value?_iff (h : Ledger bls this accepted) (hjob : job ∈ accepted) {isValid : Bool}
    (hvalue : this.value? (.ok job) = some isValid) :
    isValid = true ↔ ∀ set ∈ job.args.sets, set.IsValid bls := by
  obtain ⟨settled, hmem, hpromise⟩ := exists_of_outcome? (outcome?_of_value? hvalue)
  have hsettled : settled ∈ accepted := by
    refine h.places.mem_iff.1 ?_
    unfold BlsPool.places settledJobs
    simp only [List.mem_append]
    exact .inr (.inr (.inr (List.mem_map_of_mem (f := Prod.fst) hmem)))
  rw [← h.job_eq hsettled hjob hpromise]
  exact h.verdicts settled isValid hmem

theorem mem_accepted {call : VerifyCall PublicKey} (hcall : call ∈ this.calls)
    (hjob : .ok job ∈ call.promises) : job ∈ this.accepted :=
  List.mem_flatMap.2 ⟨call, hcall, List.mem_filterMap.2 ⟨_, hjob, rfl⟩⟩

/-- The sets of a promise's job are valid; one that is rejected at once has none. -/
def PromisesValid (bls : Bls PublicKey Signature) (promise : Except (JobError String) BlsJob) : Prop :=
  ∃ job, promise = .ok job ∧ ∀ set ∈ job.args.sets, set.IsValid bls

theorem promisesValid_ok :
    PromisesValid bls (.ok job) ↔ ∀ set ∈ job.args.sets, set.IsValid bls := by
  constructor
  · rintro ⟨_, heq, hall⟩
    cases heq
    exact hall
  · intro hall
    exact ⟨job, rfl, hall⟩

theorem Inv.values_iff (hbls : bls.Lawful) (h : Inv bls this) {call : VerifyCall PublicKey}
    (hcall : call ∈ this.calls) (hreturned : call.returned = none) {results : List Bool}
    (hvalues : call.promises.mapM this.value? = some results) :
    (∀ isValid ∈ results, isValid = true) ↔ ∀ set ∈ call.sets, set.IsValid bls := by
  have hresults := forall₂_of_mapM_option hvalues
  have hjobs : (∀ promise ∈ call.promises, PromisesValid bls promise) ↔
      ∀ isValid ∈ results, isValid = true := by
    refine forall_mem_iff_of_forall₂ hresults fun promise hmem isValid hvalue => ?_
    cases promise with
    | error e => cases hvalue
    | ok job => rw [promisesValid_ok, h.ledger.value?_iff (mem_accepted hcall hmem) hvalue]
  have hsets : (∀ promise ∈ call.promises, PromisesValid bls promise) ↔
      ∀ setsWorker ∈ chunkifyMaximizeChunkSize call.sets MAX_SIGNATURE_SETS_PER_JOB,
        ∀ set ∈ setsWorker, set.IsValid bls := by
    refine forall_mem_iff_of_forall₂ ((h.calls call hcall).chunks hreturned).flip
      fun promise hmem setsWorker hchunk => ?_
    -- a promise that is rejected at once has no value
    obtain ⟨isValid, -, hvalue⟩ := exists_of_forall₂ hresults.flip promise hmem
    cases promise with
    | error e => cases hvalue
    | ok job =>
      rw [promisesValid_ok]
      exact (forall_mem_iff_of_forall₂ (forall₂_of_mapM (hchunk job rfl)) fun set _ serialized hset =>
        isValid_iff_of_serializeSet hbls hset).symm
  rw [← hjobs, hsets, ← List.forall_mem_flatten, flatten_chunkifyMaximizeChunkSize]

theorem Inv.verdict (hbls : bls.Lawful) (h : Inv bls this) {call : VerifyCall PublicKey}
    (hcall : call ∈ this.calls) {isValid : Bool} (hresult : this.result? call = some (.ok isValid)) :
    isValid = true ↔ ∀ set ∈ call.sets, set.IsValid bls := by
  unfold result? at hresult
  cases hreturned : call.returned with
  | some outcome =>
    rw [hreturned] at hresult
    exact (h.calls call hcall).returned isValid (hreturned.trans hresult)
  | none =>
    rw [hreturned, Option.none_or] at hresult
    obtain ⟨outcome, hall, hevery⟩ := Option.map_eq_some_iff.1 hresult
    obtain ⟨results, rfl, hlength⟩ := eq_ok_of_bind hevery
    have hvalues : call.promises.mapM this.value? = some results := by
      unfold promiseAll at hall
      split at hall
      · cases hall
      · obtain ⟨results', hvalues, heq⟩ := Option.map_eq_some_iff.1 hall
        cases heq
        exact hvalues
    rw [← h.values_iff hbls hcall hreturned hvalues]
    split at hlength
    · cases hlength
    · cases hlength
      simp

/-! ## The abort -/

theorem runJob_bufferedJobs (this : BlsPool PublicKey) : this.runJob.bufferedJobs = this.bufferedJobs ∧
    this.runJob.aborted = this.aborted := by
  unfold runJob
  split
  · exact ⟨rfl, rfl⟩
  · split
    · exact ⟨rfl, rfl⟩
    · dsimp only
      split <;> exact ⟨rfl, rfl⟩

theorem abort_bufferedJobs : this.abort.bufferedJobs = this.bufferedJobs ∧
    this.abort.aborted = true := by
  unfold abort
  dsimp only
  split <;> exact ⟨rfl, rfl⟩

theorem queueChunks_of_aborted (bls : Bls PublicKey Signature) (haborted : this.aborted = true)
    (opts : VerifySignatureOpts)
    (chunks : List (List (ISignatureSet PublicKey))) :
    (queueChunks bls opts chunks this).2.2 = this := by
  induction chunks with
  | nil => rfl
  | cons setsWorker chunks ih =>
    have hqueue : ∀ workReq, this.queueBlsWork workReq = .error (.queueError .QUEUE_ABORTED) :=
      fun workReq => if_pos haborted
    unfold queueChunks
    cases setsWorker.mapM (serializeSet bls) with
    | error e => rfl
    | ok sets =>
      dsimp only
      rw [hqueue]
      exact ih

theorem verifySignatureSets_of_aborted (haborted : this.aborted = true)
    (sets : List (ISignatureSet PublicKey)) (opts : VerifySignatureOpts) :
    (this.verifySignatureSets bls blsVerifyAllMultiThread sets opts).bufferedJobs =
        this.bufferedJobs ∧
      (this.verifySignatureSets bls blsVerifyAllMultiThread sets opts).aborted = true := by
  unfold verifySignatureSets
  split
  · exact ⟨rfl, haborted⟩
  · have hthat := queueChunks_of_aborted bls haborted opts
      (chunkifyMaximizeChunkSize sets MAX_SIGNATURE_SETS_PER_JOB)
    dsimp only
    rw [hthat]
    exact ⟨rfl, haborted⟩

theorem Inv.step_of_aborted (h : Inv bls this) (haborted : this.aborted = true)
    {e : BlsEvent PublicKey} (hstep : this.step bls blsVerifyAllMultiThread e = some this') :
    this'.bufferedJobs = this.bufferedJobs ∧ this'.aborted = true ∧ e ≠ .abort := by
  cases e with
  | verifySignatureSets sets opts =>
    cases hstep
    obtain ⟨hbuffered, haborted⟩ := verifySignatureSets_of_aborted haborted sets opts
    exact ⟨hbuffered, haborted, fun habsurd => by cases habsurd⟩
  | bufferTimeout timeout =>
    simp only [BlsPool.step, (h.ledger.aborted haborted).2, List.not_mem_nil, if_false] at hstep
    cases hstep
  | runJob =>
    simp only [BlsPool.step] at hstep
    split at hstep
    · cases hstep
    · cases hstep
      obtain ⟨hbuffered, haborted'⟩ := runJob_bufferedJobs
        { this with scheduled := this.scheduled - 1 }
      exact ⟨hbuffered, haborted'.trans haborted, fun habsurd => by cases habsurd⟩
  | abort =>
    simp only [BlsPool.step, haborted, if_true] at hstep
    cases hstep
  | _ =>
    simp only [BlsPool.step] at hstep
    split at hstep
    · cases hstep
      exact ⟨rfl, haborted, fun habsurd => by cases habsurd⟩
    · cases hstep

theorem verifySignatureSets_aborted (h : Ledger bls this accepted)
    (sets : List (ISignatureSet PublicKey)) (opts : VerifySignatureOpts) :
    (this.verifySignatureSets bls blsVerifyAllMultiThread sets opts).aborted = this.aborted := by
  unfold verifySignatureSets
  split
  · rfl
  · generalize hqueue : queueChunks bls opts
      (chunkifyMaximizeChunkSize sets MAX_SIGNATURE_SETS_PER_JOB) this = queued
    obtain ⟨promises, returned, that⟩ := queued
    exact (h.queueChunks opts _ hqueue).2.1.2

theorem Ledger.step_aborted (h : Ledger bls this accepted) {e : BlsEvent PublicKey}
    (hstep : this.step bls blsVerifyAllMultiThread e = some this') (hne : e ≠ .abort) :
    this'.aborted = this.aborted := by
  cases e with
  | verifySignatureSets sets opts =>
    cases hstep
    exact verifySignatureSets_aborted h sets opts
  | bufferTimeout timeout =>
    simp only [BlsPool.step] at hstep
    split at hstep
    · cases hstep
      exact runBufferedJobs_frame.2
    · cases hstep
  | runJob =>
    simp only [BlsPool.step] at hstep
    split at hstep
    · cases hstep
    · cases hstep
      exact (runJob_bufferedJobs _).2
  | abort => exact (hne rfl).elim
  | _ =>
    simp only [BlsPool.step] at hstep
    split at hstep
    · cases hstep
      rfl
    · cases hstep

/-- A run is determined by its events. -/
theorem Run.unique (h : Run bls blsVerifyAllMultiThread poolSize events this)
    (h' : Run bls blsVerifyAllMultiThread poolSize events this') : this = this' := by
  induction h generalizing this' with
  | start =>
    generalize hevents : [] = events at h'
    cases h' with
    | start => rfl
    | step => simp at hevents
  | @step events this that e _ _ hstep ih =>
    generalize hevents : events ++ [e] = events' at h'
    cases h' with
    | start => simp at hevents
    | @step _ _ _ _ hrun _ hstep' =>
      obtain ⟨rfl, heq⟩ := List.append_inj' hevents rfl
      cases heq
      obtain rfl := ih hrun
      exact Option.some.inj (hstep.symm.trans hstep')

theorem Run.buffered_of_abort (hbls : bls.Lawful)
    (h : Run bls blsVerifyAllMultiThread poolSize events this) {pre post : List (BlsEvent PublicKey)}
    {before : BlsPool PublicKey} (hevents : events = pre ++ .abort :: post)
    (hbefore : Run bls blsVerifyAllMultiThread poolSize pre before) :
    this.aborted = true ∧ this.buffered = before.buffered := by
  induction h generalizing post with
  | start => simp at hevents
  | @step events this this' e hrun _ hstep ih =>
    rcases List.eq_nil_or_concat post with rfl | ⟨post, last, rfl⟩
    · -- the abort is the last event
      obtain ⟨rfl, heq⟩ := List.append_inj' hevents rfl
      cases heq
      obtain rfl := hrun.unique hbefore
      simp only [BlsPool.step] at hstep
      split at hstep
      · cases hstep
      · cases hstep
        exact ⟨abort_bufferedJobs.2, congrArg (fun b => (b.map (·.jobs)).getD []) abort_bufferedJobs.1⟩
    · rw [List.concat_eq_append, ← List.cons_append, ← List.append_assoc] at hevents
      obtain ⟨rfl, heq⟩ := List.append_inj' hevents rfl
      obtain ⟨haborted, hbuffered⟩ := ih rfl
      obtain ⟨hsame, haborted', -⟩ := (hrun.inv hbls).step_of_aborted haborted hstep
      refine ⟨haborted', Eq.trans ?_ hbuffered⟩
      unfold buffered
      rw [hsame]

theorem Run.exists_abort (hbls : bls.Lawful)
    (h : Run bls blsVerifyAllMultiThread poolSize events this) (haborted : this.aborted = true) :
    ∃ pre post before, events = pre ++ .abort :: post ∧
      Run bls blsVerifyAllMultiThread poolSize pre before := by
  induction h with
  | start => cases haborted
  | @step events this this' e hrun _ hstep ih =>
    by_cases hbefore : this.aborted = true
    · obtain ⟨pre, post, before, rfl, hpre⟩ := ih hbefore
      exact ⟨pre, post ++ [e], before, by simp, hpre⟩
    · have habort : e = .abort := by
        by_contra hne
        rw [(hrun.inv hbls).ledger.step_aborted hstep hne] at haborted
        exact hbefore haborted
      exact ⟨events, [], this, by rw [habort], hrun⟩

theorem Inv.settledAfterAbort_iff (h : Inv bls this) (haborted : this.aborted = true) :
    (∀ job ∈ this.accepted, job ∈ this.running ∨ job ∈ this.settledJobs) ↔ this.buffered = [] := by
  have hjobs := (h.ledger.aborted haborted).1
  have hplaces := h.ledger.places
  constructor
  · intro hall
    refine List.eq_nil_iff_forall_not_mem.2 fun job hmem => ?_
    have haccepted : job ∈ this.accepted := by
      refine hplaces.mem_iff.1 ?_
      unfold places
      simp [hmem]
    have hnodup : this.places.Nodup := by
      refine hplaces.nodup_iff.2 (List.Nodup.of_map (·.promise) ?_)
      rw [h.ledger.promises]
      exact List.nodup_range
    refine List.disjoint_of_nodup_append hnodup hmem ?_
    simp only [List.mem_append]
    exact .inr (hall job haccepted)
  · intro hbuffered job hjob
    have hplace := hplaces.mem_iff.2 hjob
    unfold places at hplace
    simpa [hbuffered, hjobs] using hplace

/-- In every run each job is at one place and each verdict is right; no job is lost by the abort if
and only if none is buffered before it. -/
theorem bls_pool_accounts (bls : Bls PublicKey Signature) (hbls : bls.Lawful)
    (blsVerifyAllMultiThread : Bool) (poolSize : Nat) (events : List (BlsEvent PublicKey))
    (this : BlsPool PublicKey) (h : Run bls blsVerifyAllMultiThread poolSize events this) :
    this.Accounted ∧ (∀ call ∈ this.calls, this.Verdict bls call) ∧
      (this.SettledAfterAbort ↔ ∀ pre post before, events = pre ++ .abort :: post →
        Run bls blsVerifyAllMultiThread poolSize pre before → before.buffered = []) := by
  have hinv := h.inv hbls
  refine ⟨⟨?_, hinv.ledger.places⟩, fun call hcall => ⟨fun htrue => ?_, fun hfalse => ?_⟩, ?_⟩
  · rw [hinv.ledger.promises]
    exact List.nodup_range
  · exact (hinv.verdict hbls hcall htrue).1 rfl
  · have hinvalid := (not_congr (hinv.verdict hbls hcall hfalse)).1 Bool.false_ne_true
    push Not at hinvalid
    exact hinvalid
  · constructor
    · intro hsettled pre post before hevents hbefore
      obtain ⟨haborted, hbuffered⟩ := h.buffered_of_abort hbls hevents hbefore
      rw [← hbuffered]
      exact (hinv.settledAfterAbort_iff haborted).1 (hsettled haborted)
    · intro hbefore haborted
      obtain ⟨pre, post, before, hevents, hpre⟩ := h.exists_abort hbls haborted
      refine (hinv.settledAfterAbort_iff haborted).2 ?_
      rw [(h.buffered_of_abort hbls hevents hpre).2]
      exact hbefore pre post before hevents hpre

/-! ## One set -/

/-- A signature is the key with the message. -/
def concatBls : Bls Bytes Bytes where
  aggregate := fun pubkeys => .ok pubkeys.flatten
  toBytes := id
  publicKeyFromBytes := .ok
  signatureFromBytes := .ok
  verify := fun sig pubkey message => .ok (sig == pubkey ++ message)
  verifyMultipleSignatures := fun sets => .ok (sets.all fun set => set.2.2 == set.1 ++ set.2.1)

theorem concatBls_lawful : concatBls.Lawful where
  publicKeyFromBytes_toBytes := fun _ => rfl
  verifyMultipleSignatures_iff := fun sets isValid h => by
    cases h
    simp [concatBls]

def signedSet : ISignatureSet Bytes := .single [1] [2] [1, 2]

/-- The set may wait for a batch when the pool is aborted. -/
def abortedBuffer : List (BlsEvent Bytes) :=
  [.initialized 0, .verifySignatureSets [signedSet] ⟨true, false⟩, .abort]

/-- The job is at no place that will ever settle it. -/
theorem buffered_job_lost : ∃ this : BlsPool Bytes,
    Run concatBls false 1 abortedBuffer this ∧ ¬ this.SettledAfterAbort ∧ this.timeouts = [] := by
  have hrun : ∃ this : BlsPool Bytes, Run concatBls false 1 abortedBuffer this ∧
      this.aborted = true ∧ this.buffered = this.accepted ∧ this.accepted.length = 1 ∧
      this.running = [] ∧ this.settledJobs = [] ∧ this.timeouts = [] :=
    ⟨_, .step (e := .abort) (.step (e := .verifySignatureSets [signedSet] ⟨true, false⟩)
      (.step (e := .initialized 0) .start trivial rfl) trivial rfl) trivial rfl, rfl, rfl, rfl, rfl,
      rfl, rfl⟩
  obtain ⟨this, hrun, haborted, -, haccepted, hrunning, hsettled, htimeouts⟩ := hrun
  refine ⟨this, hrun, fun h => ?_, htimeouts⟩
  obtain ⟨job, hjob⟩ := List.exists_mem_of_length_pos (haccepted ▸ Nat.one_pos)
  rcases h haborted job hjob with hmem | hmem
  · rw [hrunning] at hmem
    cases hmem
  · rw [hsettled] at hmem
    cases hmem

/-- The set is verified before the abort. -/
def verifiedSet : List (BlsEvent Bytes) :=
  [.initialized 0, .verifySignatureSets [signedSet] ⟨false, false⟩, .runJob,
    .workerResult 0 [some (.success true)], .abort]

theorem bls_pool_accounts_verifiedSet : ∃ this : BlsPool Bytes,
    Run concatBls false 1 verifiedSet this ∧ this.calls.map this.result? = [some (.ok true)] ∧
      this.Accounted ∧ ∀ call ∈ this.calls, this.Verdict concatBls call := by
  have hcorrect : ∀ this : BlsPool Bytes,
      this.workers = [.running [⟨⟨⟨false, false⟩, [⟨[1], [2], [1, 2]⟩]⟩, 0⟩]] →
        this.WorkerCorrect concatBls (.workerResult 0 [some (.success true)]) := by
    intro this hworkers jobs hjobs i job isValid hjob hresult
    rw [hworkers] at hjobs
    cases hjobs
    cases i with
    | zero =>
      cases hjob
      cases hresult
      simp [SerializedSet.IsValid, Bls.IsValid, concatBls]
    | succ i => cases hjob
  have hrun : ∃ this : BlsPool Bytes, Run concatBls false 1 verifiedSet this ∧
      this.calls.map this.result? = [some (.ok true)] :=
    ⟨_, .step (e := .abort) (.step (.step (e := .runJob)
      (.step (e := .verifySignatureSets [signedSet] ⟨false, false⟩)
        (.step (e := .initialized 0) .start trivial rfl) trivial rfl)
      trivial rfl) (hcorrect _ rfl) rfl) trivial rfl, rfl⟩
  obtain ⟨this, hrun, hresults⟩ := hrun
  obtain ⟨haccounted, hverdicts, -⟩ := bls_pool_accounts concatBls concatBls_lawful false 1 _ this hrun
  exact ⟨this, hrun, hresults, haccounted, hverdicts⟩

end BlsPool

end Lodestar.Chain
