import Lodestar.Sync.SyncChain

/-!
# The order of the batches

The batches of a chain are validated, processed and downloaded in the order of
their epochs, and their methods are called in the status they are for, as long
as a restart finds every batch it drops waiting for validation, and a batch that
has used up its attempts does not stop a series of resets midway.
-/

namespace Lodestar.Sync

open Lodestar.Base Lodestar.StateTransition

/-! ## Statuses in order -/

/-- What is behind a batch: it was processed, it is being processed, or neither. -/
def BatchStatus.rank : BatchStatus → Nat
  | AwaitingValidation => 0
  | Processing => 1
  | AwaitingDownload | Downloading | AwaitingProcessing => 2

/-- `AwaitingValidation* Processing? (AwaitingDownload | Downloading | AwaitingProcessing)*`. -/
def MatchesPattern (statuses : List BatchStatus) : Prop :=
  ∃ validated processing pending, statuses = validated ++ processing ++ pending ∧
    (∀ status ∈ validated, status = .AwaitingValidation) ∧
    (processing = [] ∨ processing = [.Processing]) ∧
    ∀ status ∈ pending,
      status = .AwaitingDownload ∨ status = .Downloading ∨ status = .AwaitingProcessing

/-- `first` may stand before `second`. -/
def Precedes (first second : BatchStatus) : Prop :=
  first.rank < second.rank ∨ first.rank = second.rank ∧ first.rank ≠ 1

instance (first second : BatchStatus) : Decidable (Precedes first second) :=
  inferInstanceAs (Decidable (_ ∨ _))

theorem BatchStatus.rank_eq_one_iff {status : BatchStatus} :
    status.rank = 1 ↔ status = .Processing := by
  cases status <;> decide

theorem BatchStatus.rank_eq_two_iff {status : BatchStatus} :
    status.rank = 2 ↔
      status = .AwaitingDownload ∨ status = .Downloading ∨ status = .AwaitingProcessing := by
  cases status <;> decide

theorem BatchStatus.rank_le_two (status : BatchStatus) : status.rank ≤ 2 := by
  cases status <;> decide

theorem precedes_of_rank_zero {first : BatchStatus} (h : first = .AwaitingValidation)
    (second : BatchStatus) : Precedes first second := by
  subst h
  cases second <;> decide

theorem precedes_of_rank_two {second : BatchStatus} (h : second.rank = 2) (first : BatchStatus) :
    Precedes first second := by
  have hle := first.rank_le_two
  rcases Nat.lt_or_ge first.rank 2 with hlt | hge
  · exact .inl (h ▸ hlt)
  · exact .inr ⟨by omega, by omega⟩

theorem eq_awaitingValidation_of_precedes {first : BatchStatus}
    (h : Precedes first .Processing) : first = .AwaitingValidation := by
  cases first <;> first | rfl | exact absurd h (by decide)

theorem rank_eq_two_of_precedes {first second : BatchStatus} (h : Precedes first second)
    (hfirst : first ≠ .AwaitingValidation) : second.rank = 2 := by
  cases first <;> cases second <;> first | rfl | exact absurd h (by decide) | exact absurd rfl hfirst

theorem matchesPattern_of_pairwise {statuses : List BatchStatus}
    (h : statuses.Pairwise Precedes) : MatchesPattern statuses := by
  induction statuses with
  | nil => exact ⟨[], [], [], rfl, by simp, .inl rfl, by simp⟩
  | cons status statuses ih =>
    obtain ⟨hstatus, hrest⟩ := List.pairwise_cons.mp h
    by_cases hfirst : status = .AwaitingValidation
    · obtain ⟨validated, processing, pending, rfl, hvalidated, hprocessing, hpending⟩ := ih hrest
      refine ⟨status :: validated, processing, pending, rfl, ?_, hprocessing, hpending⟩
      exact List.forall_mem_cons.mpr ⟨hfirst, hvalidated⟩
    · have hpending : ∀ s ∈ statuses,
          s = .AwaitingDownload ∨ s = .Downloading ∨ s = .AwaitingProcessing :=
        fun s hs => BatchStatus.rank_eq_two_iff.mp (rank_eq_two_of_precedes (hstatus s hs) hfirst)
      by_cases hprocessing : status = .Processing
      · exact ⟨[], [status], statuses, rfl, by simp, .inr (by rw [hprocessing]), hpending⟩
      · refine ⟨[], [], status :: statuses, rfl, by simp, .inl rfl, ?_⟩
        refine List.forall_mem_cons.mpr ⟨?_, hpending⟩
        cases status <;> simp_all

/-! ## Calls on batches -/

namespace Batch

variable {this : Batch}

/-- A further failed attempt of the batch throws. -/
def Exhausted (this : Batch) (err : ProcessingError) : Prop :=
  MAX_BATCH_PROCESSING_ATTEMPTS ≤
    if err.isExecutionEngineError then this.executionErrorAttempts.length
    else this.failedProcessingAttempts.length

theorem startDownloading_ok (h : this.status = .AwaitingDownload) (peer : PeerId) :
    this.startDownloading peer = .ok () { this with state := .Downloading peer } := by
  unfold startDownloading
  cases hs : this.state <;> simp_all [status, BatchState.status]

theorem downloadingSuccess_ok (h : this.status = .Downloading) (blocks : List SignedBeaconBlock) :
    ∃ peer, this.downloadingSuccess blocks
      = .ok () { this with state := .AwaitingProcessing peer blocks } := by
  unfold downloadingSuccess
  cases hs : this.state <;> simp_all [status, BatchState.status]

/-- A failed download throws when there were too many; the batch is still not processed. -/
theorem downloadingError_cases (h : this.status = .Downloading) :
    ∃ batch : Batch, batch.startEpoch = this.startEpoch ∧ batch.status.rank = 2 ∧
      (this.downloadingError = .ok () batch ∨
        ∃ e : BatchError, this.downloadingError = .error e batch ∧
          e.type = .MAX_DOWNLOAD_ATTEMPTS) := by
  unfold downloadingError
  cases hs : this.state with
  | Downloading peer =>
    dsimp only
    split_ifs
    · refine ⟨_, ?_, ?_, .inr ⟨_, rfl, rfl⟩⟩
      · rfl
      · simp [status, BatchState.status, BatchStatus.rank]
    · refine ⟨_, ?_, ?_, .inl rfl⟩ <;> rfl
  | _ => simp [status, hs, BatchState.status] at h

theorem startProcessing_ok (h : this.status = .AwaitingProcessing) :
    ∃ attempt blocks, this.startProcessing
      = .ok blocks { this with state := .Processing attempt } := by
  unfold startProcessing
  cases hs : this.state <;> simp_all [status, BatchState.status]

theorem processingSuccess_ok (h : this.status = .Processing) :
    ∃ attempt, this.processingSuccess
      = .ok () { this with state := .AwaitingValidation attempt } := by
  unfold processingSuccess
  cases hs : this.state <;> simp_all [status, BatchState.status]

theorem validationSuccess_ok (h : this.status = .AwaitingValidation) :
    ∃ attempt, this.validationSuccess = .ok attempt this := by
  unfold validationSuccess
  cases hs : this.state <;> simp_all [status, BatchState.status]

theorem onError_cases (this : Batch) (err : ProcessingError) (attempt : Attempt) :
    (¬ this.Exhausted err → ∃ batch : Batch, this.onError err attempt = .ok () batch ∧
      batch.startEpoch = this.startEpoch ∧ batch.status = .AwaitingDownload) ∧
    (this.Exhausted err → ∃ (e : BatchError) (batch : Batch),
      this.onError err attempt = .error e batch ∧ (∀ status, e.type ≠ .WRONG_STATUS status) ∧
        batch.startEpoch = this.startEpoch ∧ batch.state = this.state) := by
  unfold onError Exhausted onExecutionEngineError onProcessingError
  dsimp only
  rw [List.length_append, List.length_append, List.length_singleton]
  split_ifs with hengine hthrows hthrows
  · exact ⟨fun h => absurd (Nat.lt_succ_iff.mp hthrows) h,
      fun _ => ⟨_, _, rfl, (fun _ h => by cases h), rfl, rfl⟩⟩
  · exact ⟨fun _ => ⟨_, rfl, rfl, rfl⟩, fun h => absurd (Nat.lt_succ_of_le h) hthrows⟩
  · exact ⟨fun h => absurd (Nat.lt_succ_iff.mp hthrows) h,
      fun _ => ⟨_, _, rfl, (fun _ h => by cases h), rfl, rfl⟩⟩
  · exact ⟨fun _ => ⟨_, rfl, rfl, rfl⟩, fun h => absurd (Nat.lt_succ_of_le h) hthrows⟩

theorem processingError_eq (h : this.status = .Processing) (err : ProcessingError) :
    ∃ attempt, this.processingError err = this.onError err attempt := by
  unfold processingError
  cases hs : this.state <;> simp_all [status, BatchState.status]

theorem validationError_eq (h : this.status = .AwaitingValidation) (err : ProcessingError) :
    ∃ attempt, this.validationError err = this.onError err attempt := by
  unfold validationError
  cases hs : this.state <;> simp_all [status, BatchState.status]

end Batch

namespace SyncChain

/-! ## Disciplined states -/

/-- The batches in the order of their epochs have statuses that match the pattern, and no method
of a batch was called in a status for which it throws `WRONG_STATUS`. -/
structure Disciplined (this : SyncChain) : Prop where
  epochs : this.toArr.Pairwise fun a b => a.startEpoch < b.startEpoch
  statuses : MatchesPattern (this.toArr.map (·.status))
  noWrongStatus : ∀ error ∈ this.thrown, ∀ status, error.type ≠ .WRONG_STATUS status

/-- A chain is restarted at an epoch before which every batch is to be validated, and the batches
reset after a failed one have attempts left, or else the first of the map has none. -/
def Orderly (this : SyncChain) : Event → Prop
  | .startSyncing localFinalizedEpoch _ =>
    this.status = .Stopped → ∀ id ∈ this.batches,
      (this.objects id).startEpoch < this.alignedEpoch localFinalizedEpoch →
        (this.objects id).status = .AwaitingValidation
  | .processingError err _ =>
    ∀ id blocks, this.loop = .processing id blocks → err.importedBlocks = 0 →
      ¬ (this.objects id).Exhausted err →
      ∀ earlier ∈ this.batches, (this.objects earlier).startEpoch < (this.objects id).startEpoch →
        (this.objects earlier).Exhausted err →
        ∀ first, this.batches.head? = some first → (this.objects first).Exhausted err
  | _ => True

/-! ## The invariant -/

/-- What holds in every state of an orderly run. -/
structure Inv (this : SyncChain) : Prop where
  lt_nextId : ∀ id ∈ this.batches, id < this.nextId
  ordered : this.batches.Pairwise fun i j =>
    (this.objects i).startEpoch < (this.objects j).startEpoch ∧
      Precedes (this.objects i).status (this.objects j).status
  startEpoch_le : ∀ id ∈ this.batches, this.startEpoch ≤ (this.objects id).startEpoch
  downloads_nodup : this.downloads.Nodup
  downloading : ∀ id ∈ this.downloads, id < this.nextId ∧ (this.objects id).status = .Downloading
  processing : ∀ id blocks, this.loop = .processing id blocks →
    id ∈ this.batches ∧ (this.objects id).status = .Processing
  noWrongStatus : ∀ error ∈ this.thrown, ∀ status, error.type ≠ .WRONG_STATUS status

namespace Inv

variable {this : SyncChain}

theorem disciplined (h : this.Inv) : this.Disciplined where
  epochs := by
    rw [toArr, List.pairwise_map]
    exact h.ordered.imp And.left
  statuses := by
    apply matchesPattern_of_pairwise
    rw [toArr, List.map_map, List.pairwise_map]
    exact h.ordered.imp And.right
  noWrongStatus := h.noWrongStatus

theorem withLoop (h : this.Inv) (loop : SyncLoop)
    (hloop : ∀ id blocks, loop ≠ .processing id blocks) : { this with loop }.Inv :=
  { h with processing := fun id blocks hl => absurd hl (hloop id blocks) }

theorem withObjects (h : this.Inv) {objects : Nat → Batch}
    (hepoch : ∀ i, (objects i).startEpoch = (this.objects i).startEpoch)
    (hrank : ∀ i, (objects i).status.rank = (this.objects i).status.rank)
    (hdownloads : ∀ i ∈ this.downloads, (objects i).status = .Downloading) :
    { this with objects }.Inv where
  lt_nextId := h.lt_nextId
  ordered := by
    apply h.ordered.imp
    rintro i j ⟨hlt, hprecedes⟩
    show (objects i).startEpoch < (objects j).startEpoch ∧ Precedes _ _
    unfold Precedes at hprecedes ⊢
    rw [hepoch, hepoch, hrank, hrank]
    exact ⟨hlt, hprecedes⟩
  startEpoch_le i hi := (h.startEpoch_le i hi).trans_eq (hepoch i).symm
  downloads_nodup := h.downloads_nodup
  downloading i hi := ⟨(h.downloading i hi).1, hdownloads i hi⟩
  processing i blocks hloop := by
    obtain ⟨hmem, hstatus⟩ := h.processing i blocks hloop
    refine ⟨hmem, BatchStatus.rank_eq_one_iff.mp ?_⟩
    exact (hrank i).trans (BatchStatus.rank_eq_one_iff.mpr hstatus)
  noWrongStatus := h.noWrongStatus

theorem write (h : this.Inv) (id : Nat) (batch : Batch)
    (hepoch : batch.startEpoch = (this.objects id).startEpoch)
    (hrank : batch.status.rank = (this.objects id).status.rank)
    (hdownloads : id ∈ this.downloads → batch.status = .Downloading) :
    { this with objects := Function.update this.objects id batch }.Inv := by
  apply h.withObjects
  · intro i
    by_cases hi : i = id
    · rw [hi, Function.update_self, hepoch]
    · rw [Function.update_of_ne hi]
  · intro i
    by_cases hi : i = id
    · rw [hi, Function.update_self, hrank]
    · rw [Function.update_of_ne hi]
  · intro i hi
    by_cases hid : i = id
    · rw [hid] at hi
      rw [hid, Function.update_self]
      exact hdownloads hi
    · rw [Function.update_of_ne hid]
      exact (h.downloading i hi).2

/-! ## Requests -/

theorem sendBatch (h : this.Inv) {id : Nat} (hid : id < this.nextId)
    (hstatus : (this.objects id).status = .AwaitingDownload) (peer : PeerId) :
    (this.sendBatch id peer).Inv := by
  have hnew : id ∉ this.downloads := by
    intro hmem
    rw [(h.downloading id hmem).2] at hstatus
    cases hstatus
  have hwrite := h.write id { this.objects id with state := .Downloading peer } rfl
    (by rw [hstatus]; rfl) fun hmem => absurd hmem hnew
  unfold SyncChain.sendBatch
  rw [Batch.startDownloading_ok hstatus]
  refine { hwrite with downloads_nodup := ?_, downloading := ?_ }
  · show (this.downloads ++ [id]).Nodup
    exact List.Nodup.append h.downloads_nodup (List.nodup_singleton id) (by simpa using hnew)
  · intro i hi
    rcases List.mem_append.mp hi with hi | hi
    · exact hwrite.downloading i hi
    · obtain rfl := List.mem_singleton.mp hi
      refine ⟨hid, ?_⟩
      show ((Function.update this.objects i _) i).status = _
      rw [Function.update_self]
      rfl

theorem retryBatch (h : this.Inv) (peerBalancer : ChainPeersBalancer) {id : Nat}
    (hid : id < this.nextId) : (this.retryBatch peerBalancer id).Inv := by
  unfold SyncChain.retryBatch
  split_ifs with hstatus
  · exact h
  · split
    · exact h
    · exact h.sendBatch hid (not_not.mp hstatus) _

theorem nextId_retryBatch (this : SyncChain) (peerBalancer : ChainPeersBalancer) (id : Nat) :
    (this.retryBatch peerBalancer id).nextId = this.nextId := by
  unfold SyncChain.retryBatch SyncChain.sendBatch
  split_ifs
  · rfl
  · split
    · rfl
    · next peer _ => cases (this.objects id).startDownloading peer <;> rfl

theorem retryBatches (h : this.Inv) (peerBalancer : ChainPeersBalancer) {ids : List Nat}
    (hids : ∀ id ∈ ids, id < this.nextId) :
    (ids.foldl (fun this id => this.retryBatch peerBalancer id) this).Inv := by
  induction ids generalizing this with
  | nil => exact h
  | cons id ids ih =>
    obtain ⟨hid, hids⟩ := List.forall_mem_cons.mp hids
    apply ih (h.retryBatch peerBalancer hid)
    rwa [nextId_retryBatch]

theorem startEpoch_le_getLast (h : this.Inv) {last : Batch} (hlast : this.toArr.getLast? = some last)
    {id : Nat} (hid : id ∈ this.batches) : (this.objects id).startEpoch ≤ last.startEpoch := by
  obtain ⟨init, hinit⟩ := List.getLast?_eq_some_iff.mp hlast
  have hmem : this.objects id ∈ this.toArr := List.mem_map_of_mem hid
  have hpairwise := h.disciplined.epochs
  rw [hinit] at hmem hpairwise
  rcases List.mem_append.mp hmem with hmem | hmem
  · exact ((List.pairwise_append.mp hpairwise).2.2 _ hmem last List.mem_cons_self).le
  · rw [List.mem_singleton.mp hmem]

variable [Preset]

theorem new (startEpoch : Nat) (initialTarget : ChainTarget) (epochsPerBatch : Nat) :
    (SyncChain.new startEpoch initialTarget epochsPerBatch).Inv where
  lt_nextId := by simp [SyncChain.new]
  ordered := .nil
  startEpoch_le := by simp [SyncChain.new]
  downloads_nodup := .nil
  downloading := by simp [SyncChain.new]
  processing := by simp [SyncChain.new]
  noWrongStatus := by simp [SyncChain.new]

theorem includeNextBatch (h : this.Inv) {id : Nat} {chain : SyncChain}
    (hnext : this.includeNextBatch = some (id, chain)) :
    chain.Inv ∧ id < chain.nextId ∧ (chain.objects id).status = .AwaitingDownload := by
  unfold SyncChain.includeNextBatch at hnext
  dsimp only at hnext
  split_ifs at hnext with hbuffer hslot hany
  obtain ⟨rfl, rfl⟩ := Prod.mk.inj (Option.some.inj hnext)
  set startEpoch := toBeDownloadedStartEpoch this.toArr this.startEpoch this.epochsPerBatch with hs
  set objects := Function.update this.objects this.nextId (Batch.new startEpoch this.epochsPerBatch)
    with hobjects
  have hself : objects this.nextId = .new startEpoch this.epochsPerBatch := by
    rw [hobjects, Function.update_self]
  have hold : ∀ i < this.nextId, objects i = this.objects i := by
    intro i hi
    rw [hobjects, Function.update_of_ne hi.ne]
  -- no batch starts there, so the last one starts before
  have hne : ∀ i ∈ this.batches, (this.objects i).startEpoch ≠ startEpoch := by
    intro i hi heq
    apply hany
    rw [List.any_eq_true]
    exact ⟨_, List.mem_map_of_mem hi, by simpa using heq⟩
  have hlt : ∀ i ∈ this.batches, (this.objects i).startEpoch < startEpoch := by
    intro i hi
    apply lt_of_le_of_ne _ (hne i hi)
    rw [hs, toBeDownloadedStartEpoch]
    cases hlast : this.toArr.getLast? with
    | none =>
      rw [List.getLast?_eq_none_iff, toArr, List.map_eq_nil_iff] at hlast
      rw [hlast] at hi
      exact absurd hi List.not_mem_nil
    | some last =>
      have := h.startEpoch_le_getLast hlast hi
      show _ ≤ last.startEpoch + _
      omega
  have hle : this.startEpoch ≤ startEpoch := by
    cases hbatches : this.batches with
    | nil => rw [hs, toBeDownloadedStartEpoch, toArr, hbatches]; exact le_refl _
    | cons i ids =>
      have hi : i ∈ this.batches := hbatches ▸ List.mem_cons_self
      exact (h.startEpoch_le i hi).trans (hlt i hi).le
  refine ⟨⟨?_, ?_, ?_, h.downloads_nodup, ?_, ?_, h.noWrongStatus⟩, Nat.lt_succ_self _, ?_⟩
  · intro i hi
    rcases List.mem_append.mp hi with hi | hi
    · exact Nat.lt_succ_of_lt (h.lt_nextId i hi)
    · rw [List.mem_singleton.mp hi]
      exact Nat.lt_succ_self _
  · show (this.batches ++ [this.nextId]).Pairwise fun i j =>
      (objects i).startEpoch < (objects j).startEpoch ∧
        Precedes (objects i).status (objects j).status
    rw [List.pairwise_append]
    refine ⟨?_, List.pairwise_singleton _ _, ?_⟩
    · apply h.ordered.imp_of_mem
      intro i j hi hj hij
      rwa [hold i (h.lt_nextId i hi), hold j (h.lt_nextId j hj)]
    · intro i hi j hj
      rw [List.mem_singleton.mp hj, hself, hold i (h.lt_nextId i hi)]
      exact ⟨hlt i hi, precedes_of_rank_two rfl _⟩
  · intro i hi
    show this.startEpoch ≤ (objects i).startEpoch
    rcases List.mem_append.mp hi with hi | hi
    · rw [hold i (h.lt_nextId i hi)]
      exact h.startEpoch_le i hi
    · rw [List.mem_singleton.mp hi, hself]
      exact hle
  · intro i hi
    obtain ⟨hlt, hstatus⟩ := h.downloading i hi
    refine ⟨Nat.lt_succ_of_lt hlt, ?_⟩
    show (objects i).status = _
    rw [hold i hlt]
    exact hstatus
  · intro i blocks hloop
    obtain ⟨hmem, hstatus⟩ := h.processing i blocks hloop
    refine ⟨List.mem_append_left _ hmem, ?_⟩
    show (objects i).status = _
    rw [hold i (h.lt_nextId i hmem)]
    exact hstatus
  · show (objects this.nextId).status = _
    rw [hself]
    rfl

theorem requestNewBatches (h : this.Inv) (peers : List PeerId) :
    (SyncChain.requestNewBatches peers this).Inv := by
  induction peers generalizing this with
  | nil => exact h
  | cons peer peers ih =>
    unfold SyncChain.requestNewBatches
    cases hnext : this.includeNextBatch with
    | none => exact h
    | some next =>
      obtain ⟨hchain, hid, hstatus⟩ := h.includeNextBatch hnext
      exact ih (hchain.sendBatch hid hstatus peer)

theorem requestBatches (h : this.Inv) (peers : List PeerId) : (this.requestBatches peers).Inv := by
  unfold SyncChain.requestBatches
  split_ifs
  · exact h
  · exact (h.retryBatches _ h.lt_nextId).requestNewBatches _

end Inv

/-! ## Advancing -/

/-- `chain` is `this` without the batches before `newStartEpoch`. -/
structure Advanced (newStartEpoch : Nat) (this chain : SyncChain) : Prop where
  batches_eq : chain.batches
    = this.batches.filter fun id => newStartEpoch ≤ (this.objects id).startEpoch
  startEpoch_eq : chain.startEpoch = max this.startEpoch newStartEpoch
  objects_eq : chain.objects = this.objects
  nextId_eq : chain.nextId = this.nextId
  downloads_eq : chain.downloads = this.downloads
  loop_eq : chain.loop = this.loop
  thrown_eq : chain.thrown = this.thrown
  epochsPerBatch_eq : chain.epochsPerBatch = this.epochsPerBatch
  target_eq : chain.target = this.target

variable {this : SyncChain}

theorem dropBatches_ok (this : SyncChain) {newStartEpoch : Nat} {ids : List Nat}
    (hvalidated : ∀ id ∈ ids, (this.objects id).startEpoch < newStartEpoch →
      (this.objects id).status = .AwaitingValidation) :
    ∃ validatedEpochs reports, dropBatches newStartEpoch ids this
      = .ok () { this with
          batches := this.batches.filter fun i =>
            ¬ (i ∈ ids ∧ (this.objects i).startEpoch < newStartEpoch)
          validatedEpochs
          reports } := by
  induction ids generalizing this with
  | nil =>
    refine ⟨this.validatedEpochs, this.reports, ?_⟩
    simp [dropBatches]
  | cons id ids ih =>
    obtain ⟨hid, hvalidated⟩ := List.forall_mem_cons.mp hvalidated
    unfold dropBatches
    dsimp only
    split_ifs with hlt
    · obtain ⟨attempt, hsuccess⟩ := Batch.validationSuccess_ok (hid hlt)
      rw [hsuccess]
      dsimp only [afterCall]
      rw [Function.update_eq_self]
      set rest : SyncChain := { this with
        batches := this.batches.filter (· ≠ id)
        validatedEpochs := this.validatedEpochs + EPOCHS_PER_BATCH
        reports := this.reports ++ wrongAttempts (this.objects id) attempt } with hrest
      obtain ⟨validatedEpochs, reports, hdrop⟩ := ih rest hvalidated
      refine ⟨validatedEpochs, reports, hdrop.trans ?_⟩
      have hfilter : (this.batches.filter (· ≠ id)).filter
            (fun i => ¬ (i ∈ ids ∧ (this.objects i).startEpoch < newStartEpoch))
          = this.batches.filter fun i =>
            ¬ (i ∈ id :: ids ∧ (this.objects i).startEpoch < newStartEpoch) := by
        rw [List.filter_filter]
        apply List.filter_congr
        intro i _
        by_cases hi : i = id
        · simp [hi, hlt]
        · simp [hi]
      show EStateM.Result.ok () { rest with
        batches := (this.batches.filter (· ≠ id)).filter _, validatedEpochs, reports } = _
      rw [hfilter]
    · obtain ⟨validatedEpochs, reports, hdrop⟩ := ih this hvalidated
      refine ⟨validatedEpochs, reports, hdrop.trans ?_⟩
      have hfilter : this.batches.filter
            (fun i => ¬ (i ∈ ids ∧ (this.objects i).startEpoch < newStartEpoch))
          = this.batches.filter fun i =>
            ¬ (i ∈ id :: ids ∧ (this.objects i).startEpoch < newStartEpoch) := by
        apply List.filter_congr
        intro i _
        by_cases hi : i = id
        · simp [hi, hlt]
        · simp [hi]
      rw [hfilter]

namespace Inv

theorem advanceChain_ok (h : this.Inv) {newStartEpoch : Nat}
    (hvalidated : ∀ id ∈ this.batches, (this.objects id).startEpoch < newStartEpoch →
      (this.objects id).status = .AwaitingValidation) :
    ∃ chain, this.advanceChain newStartEpoch = .ok () chain ∧
      Advanced newStartEpoch this chain := by
  unfold SyncChain.advanceChain
  split_ifs with hle
  · refine ⟨this, rfl, ?_, by rw [max_eq_left hle], rfl, rfl, rfl, rfl, rfl, rfl, rfl⟩
    symm
    rw [List.filter_eq_self]
    intro id hid
    simpa using hle.trans (h.startEpoch_le id hid)
  · obtain ⟨validatedEpochs, reports, hdrop⟩ := dropBatches_ok this hvalidated
    rw [hdrop]
    refine ⟨_, rfl, ?_, ?_, rfl, rfl, rfl, rfl, rfl, rfl, rfl⟩
    · apply List.filter_congr
      intro id hid
      simp [hid]
    · exact (max_eq_right (Nat.le_of_not_le hle)).symm

theorem advanced (h : this.Inv) {newStartEpoch : Nat} {chain : SyncChain}
    (hvalidated : ∀ id ∈ this.batches, (this.objects id).startEpoch < newStartEpoch →
      (this.objects id).status = .AwaitingValidation)
    (hadvanced : Advanced newStartEpoch this chain) : chain.Inv := by
  have hmem : ∀ id, id ∈ chain.batches ↔
      id ∈ this.batches ∧ newStartEpoch ≤ (this.objects id).startEpoch := by
    intro id
    rw [hadvanced.batches_eq, List.mem_filter]
    simp
  refine ⟨?_, ?_, ?_, ?_, ?_, ?_, ?_⟩
  · intro id hid
    rw [hadvanced.nextId_eq]
    exact h.lt_nextId id ((hmem id).mp hid).1
  · rw [hadvanced.batches_eq, hadvanced.objects_eq]
    exact h.ordered.sublist List.filter_sublist
  · intro id hid
    rw [hadvanced.startEpoch_eq, hadvanced.objects_eq]
    exact max_le (h.startEpoch_le id ((hmem id).mp hid).1) ((hmem id).mp hid).2
  · rw [hadvanced.downloads_eq]
    exact h.downloads_nodup
  · rw [hadvanced.downloads_eq, hadvanced.nextId_eq, hadvanced.objects_eq]
    exact h.downloading
  · intro id blocks hloop
    rw [hadvanced.loop_eq] at hloop
    obtain ⟨hid, hstatus⟩ := h.processing id blocks hloop
    rw [hadvanced.objects_eq]
    refine ⟨(hmem id).mpr ⟨hid, ?_⟩, hstatus⟩
    by_contra hlt
    rw [hvalidated id hid (Nat.lt_of_not_le hlt)] at hstatus
    cases hstatus
  · rw [hadvanced.thrown_eq]
    exact h.noWrongStatus

theorem precedes (h : this.Inv) {i j : Nat} (hi : i ∈ this.batches) (hj : j ∈ this.batches)
    (hlt : (this.objects i).startEpoch < (this.objects j).startEpoch) :
    Precedes (this.objects i).status (this.objects j).status := by
  have hall : this.batches.Pairwise fun a b =>
      (this.objects a).startEpoch < (this.objects b).startEpoch →
        Precedes (this.objects a).status (this.objects b).status :=
    h.ordered.imp fun hab _ => hab.2
  have hflip : this.batches.Pairwise fun a b =>
      (this.objects b).startEpoch < (this.objects a).startEpoch →
        Precedes (this.objects b).status (this.objects a).status :=
    h.ordered.imp fun hab hba => absurd hba (Nat.lt_asymm hab.1)
  exact hall.forall_of_forall_of_flip (fun k _ hk => absurd hk (Nat.lt_irrefl _)) hflip hi hj hlt

theorem place (h : this.Inv) (hloop : ∀ i blocks, this.loop ≠ .processing i blocks) {id : Nat}
    (hdownloads : id ∉ this.downloads)
    (hbefore : ∀ i ∈ this.batches, (this.objects i).startEpoch < (this.objects id).startEpoch →
      (this.objects i).status = .AwaitingValidation)
    (hafter : ∀ j ∈ this.batches, (this.objects id).startEpoch < (this.objects j).startEpoch →
      (this.objects j).status.rank = 2)
    (batch : Batch) (hepoch : batch.startEpoch = (this.objects id).startEpoch) :
    { this with objects := Function.update this.objects id batch }.Inv := by
  set objects := Function.update this.objects id batch with hobjects
  have hself : objects id = batch := by rw [hobjects, Function.update_self]
  have hold : ∀ i, i ≠ id → objects i = this.objects i := by
    intro i hi
    rw [hobjects, Function.update_of_ne hi]
  have hsame : ∀ i, (objects i).startEpoch = (this.objects i).startEpoch := by
    intro i
    by_cases hi : i = id
    · rw [hi, hself, hepoch]
    · rw [hold i hi]
  refine ⟨h.lt_nextId, ?_, ?_, h.downloads_nodup, ?_, ?_, h.noWrongStatus⟩
  · apply h.ordered.imp_of_mem
    rintro i j hi hj ⟨hlt, hprecedes⟩
    show (objects i).startEpoch < (objects j).startEpoch ∧ Precedes _ _
    refine ⟨by rwa [hsame, hsame], ?_⟩
    by_cases hid : i = id
    · have hjd : j ≠ id := by
        rintro rfl
        rw [hid] at hlt
        exact Nat.lt_irrefl _ hlt
      show Precedes (objects i).status (objects j).status
      rw [hold j hjd]
      exact precedes_of_rank_two (hafter j hj (hid ▸ hlt)) _
    · show Precedes (objects i).status (objects j).status
      rw [hold i hid]
      by_cases hjd : j = id
      · exact precedes_of_rank_zero (hbefore i hi (hjd ▸ hlt)) _
      · rw [hold j hjd]
        exact hprecedes
  · intro i hi
    exact (h.startEpoch_le i hi).trans_eq (hsame i).symm
  · intro i hi
    have hid : i ≠ id := by
      rintro rfl
      exact hdownloads hi
    refine ⟨(h.downloading i hi).1, ?_⟩
    show (objects i).status = _
    rw [hold i hid]
    exact (h.downloading i hi).2
  · intro i blocks hl
    exact absurd hl (hloop i blocks)

theorem not_mem_downloads (h : this.Inv) {id : Nat}
    (hstatus : (this.objects id).status ≠ .Downloading) : id ∉ this.downloads :=
  fun hmem => hstatus (h.downloading id hmem).2

/-- Batches before one that is being processed are to be validated, and those after are not. -/
theorem around_processing (h : this.Inv) {id : Nat} (hid : id ∈ this.batches)
    (hstatus : (this.objects id).status = .Processing) :
    (∀ i ∈ this.batches, (this.objects i).startEpoch < (this.objects id).startEpoch →
        (this.objects i).status = .AwaitingValidation) ∧
      ∀ j ∈ this.batches, (this.objects id).startEpoch < (this.objects j).startEpoch →
        (this.objects j).status.rank = 2 := by
  constructor
  · intro i hi hlt
    have hprecedes := h.precedes hi hid hlt
    rw [hstatus] at hprecedes
    exact eq_awaitingValidation_of_precedes hprecedes
  · intro j hj hlt
    have hprecedes := h.precedes hid hj hlt
    rw [hstatus] at hprecedes
    exact rank_eq_two_of_precedes hprecedes (by decide)

/-- Nothing follows a batch that is not validated but pending ones, when only validated ones are
before it. -/
theorem around_next (h : this.Inv) {before after : List Nat} {id : Nat}
    (hbatches : this.batches = before ++ id :: after)
    (hbefore : ∀ i ∈ before, (this.objects i).status = .AwaitingValidation)
    (hstatus : (this.objects id).status ≠ .AwaitingValidation) :
    (∀ i ∈ this.batches, (this.objects i).startEpoch < (this.objects id).startEpoch →
        (this.objects i).status = .AwaitingValidation) ∧
      ∀ j ∈ this.batches, (this.objects id).startEpoch < (this.objects j).startEpoch →
        (this.objects j).status.rank = 2 := by
  have hid : id ∈ this.batches := by
    rw [hbatches]
    exact List.mem_append_right _ List.mem_cons_self
  have hordered := h.ordered
  rw [hbatches, List.pairwise_append, List.pairwise_cons] at hordered
  obtain ⟨_, ⟨hafter, _⟩, _⟩ := hordered
  constructor
  · intro i hi hlt
    rw [hbatches] at hi
    rcases List.mem_append.mp hi with hi | hi
    · exact hbefore i hi
    · rcases List.mem_cons.mp hi with rfl | hi
      · exact absurd hlt (Nat.lt_irrefl _)
      · exact absurd hlt (Nat.lt_asymm (hafter i hi).1)
  · intro j hj hlt
    exact rank_eq_two_of_precedes (h.precedes hid hj hlt) hstatus

end Inv

theorem getNextBatchToProcess_eq_some {ids : List Nat} {id : Nat}
    (h : this.getNextBatchToProcess ids = some id) :
    ∃ before after, ids = before ++ id :: after ∧
      (∀ i ∈ before, (this.objects i).status = .AwaitingValidation) ∧
      (this.objects id).status = .AwaitingProcessing := by
  induction ids with
  | nil => cases h
  | cons i ids ih =>
    unfold getNextBatchToProcess at h
    cases hs : (this.objects i).status <;> rw [hs] at h
    case AwaitingValidation =>
      obtain ⟨before, after, rfl, hbefore, hstatus⟩ := ih h
      exact ⟨i :: before, after, rfl, List.forall_mem_cons.mpr ⟨hs, hbefore⟩, hstatus⟩
    case AwaitingProcessing =>
      obtain rfl := Option.some.inj h
      exact ⟨[], ids, rfl, by simp, hs⟩
    all_goals cases h

/-! ## Resetting the batches before a failed one -/

/-- The batches before `startEpoch`, each with an attempt left, are to be downloaded again. -/
theorem failPending_ok (this : SyncChain) {startEpoch : Nat} {err : ProcessingError}
    {ids : List Nat} (hnodup : ids.Nodup)
    (hpending : ∀ id ∈ ids, (this.objects id).startEpoch < startEpoch →
      (this.objects id).status = .AwaitingValidation ∧ ¬ (this.objects id).Exhausted err) :
    ∃ objects, failPending startEpoch err ids this = .ok () { this with objects } ∧
      (∀ i, (objects i).startEpoch = (this.objects i).startEpoch) ∧
      (∀ i, ¬ (i ∈ ids ∧ (this.objects i).startEpoch < startEpoch) →
        objects i = this.objects i) ∧
      ∀ i ∈ ids, (this.objects i).startEpoch < startEpoch →
        (objects i).status = .AwaitingDownload := by
  induction ids generalizing this with
  | nil => exact ⟨this.objects, rfl, fun _ => rfl, fun _ _ => rfl, by simp⟩
  | cons id ids ih =>
    obtain ⟨hnew, hnodup⟩ := List.nodup_cons.mp hnodup
    obtain ⟨hid, hpending⟩ := List.forall_mem_cons.mp hpending
    unfold failPending
    split_ifs with hlt
    · obtain ⟨hstatus, hattempts⟩ := hid hlt
      obtain ⟨attempt, herror⟩ := Batch.validationError_eq hstatus err
      obtain ⟨batch, hbatch, hepoch, hawaits⟩ :=
        ((this.objects id).onError_cases err attempt).1 hattempts
      rw [herror, hbatch]
      dsimp only [afterCall]
      have hother : ∀ i, i ≠ id → Function.update this.objects id batch i = this.objects i :=
        fun i hi => Function.update_of_ne hi _ _
      have hself : Function.update this.objects id batch id = batch := Function.update_self _ _ _
      have hne : ∀ i ∈ ids, i ≠ id := by
        rintro i hi rfl
        exact hnew hi
      have hrest : ∀ i ∈ ids,
          (Function.update this.objects id batch i).startEpoch < startEpoch →
          (Function.update this.objects id batch i).status = .AwaitingValidation ∧
            ¬ (Function.update this.objects id batch i).Exhausted err := by
        intro i hi
        rw [hother i (hne i hi)]
        exact hpending i hi
      obtain ⟨objects, hloop, hepochs, hsame, hreset⟩ :=
        ih { this with objects := Function.update this.objects id batch } hnodup hrest
      dsimp only at hepochs hsame hreset
      refine ⟨objects, hloop, ?_, ?_, ?_⟩
      · intro i
        rw [hepochs i]
        by_cases hi : i = id
        · rw [hi, hself, hepoch]
        · rw [hother i hi]
      · intro i hi
        have hid : i ≠ id := by
          rintro rfl
          exact hi ⟨List.mem_cons_self, hlt⟩
        rw [hsame i, hother i hid]
        rintro ⟨hmem, hlt⟩
        apply hi
        rw [← hother i hid]
        exact ⟨List.mem_cons_of_mem _ hmem, hlt⟩
      · intro i hi hi'
        rcases List.mem_cons.mp hi with rfl | hi
        · rw [hsame i fun hmem => hnew hmem.1]
          rw [hself]
          exact hawaits
        · apply hreset i hi
          rwa [hother i (hne i hi)]
    · obtain ⟨objects, hloop, hepochs, hsame, hreset⟩ := ih this hnodup hpending
      refine ⟨objects, hloop, hepochs, ?_, ?_⟩
      · intro i hi
        apply hsame
        rintro ⟨hmem, hlt'⟩
        exact hi ⟨List.mem_cons_of_mem _ hmem, hlt'⟩
      · intro i hi hi'
        rcases List.mem_cons.mp hi with rfl | hi
        · exact absurd hi' hlt
        · exact hreset i hi hi'

theorem failPending_error (this : SyncChain) {startEpoch : Nat} {err : ProcessingError}
    {first : Nat} (rest : List Nat) (hlt : (this.objects first).startEpoch < startEpoch)
    (hstatus : (this.objects first).status = .AwaitingValidation)
    (hexhausted : (this.objects first).Exhausted err) :
    ∃ (e : BatchError) (batch : Batch),
      failPending startEpoch err (first :: rest) this
        = .error e { this with
            objects := Function.update this.objects first batch
            thrown := this.thrown ++ [e] } ∧
      (∀ status, e.type ≠ .WRONG_STATUS status) ∧
      batch.startEpoch = (this.objects first).startEpoch ∧
      batch.state = (this.objects first).state := by
  obtain ⟨attempt, herror⟩ := Batch.validationError_eq hstatus err
  obtain ⟨e, batch, hbatch, htype, hepoch, hstate⟩ :=
    ((this.objects first).onError_cases err attempt).2 hexhausted
  refine ⟨e, batch, ?_, htype, hepoch, hstate⟩
  unfold failPending
  rw [if_pos hlt, herror, hbatch]
  rfl

/-! ## Steps -/

namespace Inv

theorem withThrown (h : this.Inv) (e : BatchError) (htype : ∀ status, e.type ≠ .WRONG_STATUS status) :
    { this with thrown := this.thrown ++ [e] }.Inv := by
  refine { h with noWrongStatus := ?_ }
  intro error herror
  rcases List.mem_append.mp herror with herror | herror
  · exact h.noWrongStatus error herror
  · rw [List.mem_singleton.mp herror]
    exact htype

theorem withoutDownload (h : this.Inv) (id : Nat) :
    { this with downloads := this.downloads.erase id }.Inv :=
  { h with
    downloads_nodup := h.downloads_nodup.erase id
    downloading := fun i hi => h.downloading i (List.mem_of_mem_erase hi) }

theorem triggerBatchProcessor (h : this.Inv) : this.triggerBatchProcessor.Inv := { h with }

theorem endProcessor (h : this.Inv) (error : ChainError) : (this.endProcessor error).Inv :=
  { h with }

theorem next (h : this.Inv) : this.next.Inv := by
  unfold SyncChain.next
  split
  · exact h.withLoop _ (by simp)
  · exact { h.withLoop .resumed (by simp) with }

theorem placeProcessed (h : this.Inv) {id : Nat} {blocks : List SignedBeaconBlock}
    (hloop : this.loop = .processing id blocks) (batch : Batch)
    (hepoch : batch.startEpoch = (this.objects id).startEpoch) :
    { this with objects := Function.update this.objects id batch, loop := .waiting }.Inv := by
  obtain ⟨hid, hstatus⟩ := h.processing id blocks hloop
  obtain ⟨hbefore, hafter⟩ := h.around_processing hid hstatus
  exact (h.withLoop .waiting (by simp)).place (by simp)
    (h.not_mem_downloads (by rw [hstatus]; decide)) hbefore hafter batch hepoch

theorem around_placeProcessed (h : this.Inv) {id : Nat} {blocks : List SignedBeaconBlock}
    (hloop : this.loop = .processing id blocks) {batch : Batch}
    (hepoch : batch.startEpoch = (this.objects id).startEpoch) {objects : Nat → Batch}
    (hobjects : objects = Function.update this.objects id batch) :
    (∀ i ∈ this.batches, (objects i).startEpoch < (objects id).startEpoch →
        (objects i).status = .AwaitingValidation) ∧
      (∀ j ∈ this.batches, (objects id).startEpoch < (objects j).startEpoch →
        (objects j).status.rank = 2) ∧
      ∀ i ∈ this.batches, (objects i).startEpoch = (objects id).startEpoch → i = id := by
  obtain ⟨hid, hstatus⟩ := h.processing id blocks hloop
  obtain ⟨hbefore, hafter⟩ := h.around_processing hid hstatus
  have hself : (objects id).startEpoch = (this.objects id).startEpoch := by
    rw [hobjects, Function.update_self, hepoch]
  have hother : ∀ i, i ≠ id → objects i = this.objects i := by
    intro i hi
    rw [hobjects, Function.update_of_ne hi]
  refine ⟨?_, ?_, ?_⟩
  · intro i hi hlt
    have hne : i ≠ id := by
      rintro rfl
      exact Nat.lt_irrefl _ hlt
    rw [hself, hother i hne] at hlt
    rw [hother i hne]
    exact hbefore i hi hlt
  · intro j hj hlt
    have hne : j ≠ id := by
      rintro rfl
      exact Nat.lt_irrefl _ hlt
    rw [hself, hother j hne] at hlt
    rw [hother j hne]
    exact hafter j hj hlt
  · intro i hi heq
    by_contra hne
    rw [hself, hother i hne] at heq
    have hdistinct : this.batches.Pairwise fun i j =>
        (this.objects i).startEpoch ≠ (this.objects j).startEpoch :=
      h.ordered.imp fun hij => Nat.ne_of_lt hij.1
    have hsymm : Std.Symm fun i j => (this.objects i).startEpoch ≠ (this.objects j).startEpoch :=
      ⟨fun _ _ hij => hij.symm⟩
    exact hdistinct.forall hi hid hne heq

theorem computeTarget (h : this.Inv) : this.computeTarget.Inv := by
  unfold SyncChain.computeTarget
  split
  · exact { h with }
  · exact h

theorem caught (h : this.Inv) (error : ChainError) : (this.caught error).Inv := by
  have hended := h.withLoop .ended (by simp)
  cases error <;> exact { hended with }

variable [Preset]

theorem startSyncing (h : this.Inv) {localFinalizedEpoch : Nat} {peers : List PeerId}
    (horderly : Orderly this (.startSyncing localFinalizedEpoch peers)) :
    (this.startSyncing localFinalizedEpoch peers).Inv := by
  unfold SyncChain.startSyncing
  cases hstatus : this.status with
  | Stopped =>
    have hsyncing : { this with status := .Syncing }.Inv := { h with }
    obtain ⟨chain, hadvance, hadvanced⟩ := hsyncing.advanceChain_ok (horderly hstatus)
    dsimp only
    rw [show SyncChain.alignedEpoch { this with status := .Syncing } localFinalizedEpoch
      = this.alignedEpoch localFinalizedEpoch from rfl, hadvance]
    exact { (hsyncing.advanced (horderly hstatus) hadvanced).requestBatches peers with }
  | _ => exact h

theorem downloadingSuccess (h : this.Inv) {id : Nat} (hid : id ∈ this.downloads)
    (blocks : List SignedBeaconBlock) (peers₁ peers₂ : List PeerId) :
    (this.downloaded id ((this.objects id).downloadingSuccess blocks) true peers₁ peers₂).Inv := by
  obtain ⟨_, hstatus⟩ := h.downloading id hid
  obtain ⟨peer, hsuccess⟩ := Batch.downloadingSuccess_ok hstatus blocks
  have hwrite := (h.withoutDownload id).write id
    { this.objects id with state := .AwaitingProcessing peer blocks } rfl
    (by show _ = (this.objects id).status.rank; rw [hstatus]; rfl)
    (fun hmem => absurd hmem h.downloads_nodup.not_mem_erase)
  unfold SyncChain.downloaded
  rw [hsuccess]
  exact (hwrite.triggerBatchProcessor.requestBatches peers₁).requestBatches peers₂

theorem downloadingError (h : this.Inv) {id : Nat} (hid : id ∈ this.downloads)
    (peers₁ peers₂ : List PeerId) :
    (this.downloaded id (this.objects id).downloadingError false peers₁ peers₂).Inv := by
  obtain ⟨_, hstatus⟩ := h.downloading id hid
  obtain ⟨batch, hepoch, hrank, hresult⟩ := Batch.downloadingError_cases hstatus
  have hwrite := (h.withoutDownload id).write id batch hepoch
    (by show _ = (this.objects id).status.rank; rw [hrank, hstatus]; rfl)
    (fun hmem => absurd hmem h.downloads_nodup.not_mem_erase)
  unfold SyncChain.downloaded
  rcases hresult with hresult | ⟨e, hresult, htype⟩
  · rw [hresult]
    exact (hwrite.requestBatches peers₁).requestBatches peers₂
  · rw [hresult]
    have hthrown := hwrite.withThrown e fun status => by rw [htype]; simp
    exact (hthrown.endProcessor (.batch e)).requestBatches peers₂

theorem iterate (h : this.Inv) (hloop : this.loop = .resumed) : this.iterate.Inv := by
  have hnot : ∀ i blocks, this.loop ≠ .processing i blocks := by simp [hloop]
  unfold SyncChain.iterate
  split_ifs
  · exact h.withLoop _ (by simp)
  · split
    · exact h.withLoop _ (by simp)
    · dsimp only
      split_ifs
      · exact h.withLoop _ (by simp)
      · split
        · exact h.withLoop _ (by simp)
        · next id hnext =>
          obtain ⟨before, after, hbatches, hbefore, hstatus⟩ := getNextBatchToProcess_eq_some hnext
          obtain ⟨attempt, blocks, hstart⟩ := Batch.startProcessing_ok hstatus
          have hid : id ∈ this.batches := by
            rw [hbatches]
            exact List.mem_append_right _ List.mem_cons_self
          obtain ⟨hvalidated, hpending⟩ := h.around_next hbatches hbefore (by rw [hstatus]; decide)
          have hplace := h.place hnot (h.not_mem_downloads (by rw [hstatus]; decide)) hvalidated
            hpending { this.objects id with state := .Processing attempt } rfl
          rw [hstart]
          refine { hplace with processing := ?_ }
          rintro i blocks' hi
          obtain ⟨rfl, _⟩ := SyncLoop.processing.inj hi
          refine ⟨hid, ?_⟩
          show ((Function.update this.objects id _) id).status = _
          rw [Function.update_self]
          rfl

theorem processed (h : this.Inv) {id : Nat} {blocks : List SignedBeaconBlock}
    (hloop : this.loop = .processing id blocks) (peers : List PeerId) :
    (this.processed id blocks peers).Inv := by
  obtain ⟨hid, hstatus⟩ := h.processing id blocks hloop
  obtain ⟨attempt, hsuccess⟩ := Batch.processingSuccess_ok hstatus
  have hplace := h.placeProcessed hloop
    { this.objects id with state := .AwaitingValidation attempt } rfl
  unfold SyncChain.processed
  rw [hsuccess]
  dsimp only [afterCall]
  set chain : SyncChain := { this with
    objects := Function.update this.objects id
      { this.objects id with state := .AwaitingValidation attempt }
    loop := .waiting } with hchain
  have hvalidated : ∀ i ∈ chain.batches,
      (chain.objects i).startEpoch < (chain.objects id).startEpoch →
        (chain.objects i).status = .AwaitingValidation := by
    apply (h.around_placeProcessed hloop _ rfl).1
    rfl
  split_ifs
  · obtain ⟨advanced, hadvance, hadvanced⟩ := hplace.advanceChain_ok hvalidated
    rw [hadvance]
    exact (hplace.advanced hvalidated hadvanced).triggerBatchProcessor.requestBatches peers
  · exact hplace.triggerBatchProcessor.requestBatches peers

theorem failPending (h : this.Inv) {id : Nat} {err : ProcessingError} (peers : List PeerId)
    (hloop : this.loop = .waiting) (hid : (this.objects id).status.rank = 2)
    (hbefore : ∀ i ∈ this.batches, (this.objects i).startEpoch < (this.objects id).startEpoch →
      (this.objects i).status = .AwaitingValidation)
    (hafter : ∀ j ∈ this.batches, (this.objects id).startEpoch < (this.objects j).startEpoch →
      (this.objects j).status.rank = 2)
    (hsame : ∀ i ∈ this.batches, (this.objects i).startEpoch = (this.objects id).startEpoch →
      i = id)
    (horderly : ∀ i ∈ this.batches, (this.objects i).startEpoch < (this.objects id).startEpoch →
      (this.objects i).Exhausted err →
      ∀ first, this.batches.head? = some first → (this.objects first).Exhausted err) :
    (match SyncChain.failPending (this.objects id).startEpoch err this.batches this with
      | .error e this => { this with loop := .failed (.batch e) }
      | .ok _ this => this.requestBatches peers : SyncChain).Inv := by
  have hnodup : this.batches.Nodup := h.ordered.imp fun hij heq => by
    rw [heq] at hij
    exact Nat.lt_irrefl _ hij.1
  by_cases hattempts : ∃ i ∈ this.batches,
      (this.objects i).startEpoch < (this.objects id).startEpoch ∧ (this.objects i).Exhausted err
  · -- the first batch of the map has no attempts left
    obtain ⟨i, hi, hlt, hexhausted⟩ := hattempts
    cases hbatches : this.batches with
    | nil =>
      rw [hbatches] at hi
      exact absurd hi List.not_mem_nil
    | cons first rest =>
      have hfirst : first ∈ this.batches := hbatches ▸ List.mem_cons_self
      have hle : (this.objects first).startEpoch ≤ (this.objects i).startEpoch := by
        have hordered := h.ordered
        rw [hbatches] at hi hordered
        rcases List.mem_cons.mp hi with rfl | hi
        · exact le_refl _
        · exact ((List.pairwise_cons.mp hordered).1 i hi).1.le
      have hfirstLt := hle.trans_lt hlt
      have hfirstStatus := hbefore first hfirst hfirstLt
      obtain ⟨e, batch, herror, htype, hepoch, hstate⟩ := failPending_error this rest hfirstLt
        hfirstStatus (horderly i hi hlt hexhausted first (by rw [hbatches]; rfl))
      rw [herror]
      have hstatus : batch.status = (this.objects first).status := by
        rw [Batch.status, hstate]
        rfl
      have hwrite := h.write first batch hepoch (by rw [hstatus]) fun hmem =>
        absurd hmem (h.not_mem_downloads (by rw [hfirstStatus]; decide))
      exact (hwrite.withThrown e htype).withLoop _ (by simp)
  · -- all of them are pending now
    have hpending : ∀ i ∈ this.batches,
        (this.objects i).startEpoch < (this.objects id).startEpoch →
        (this.objects i).status = .AwaitingValidation ∧ ¬ (this.objects i).Exhausted err :=
      fun i hi hlt => ⟨hbefore i hi hlt, fun hex => hattempts ⟨i, hi, hlt, hex⟩⟩
    obtain ⟨objects, hok, hepochs, hsameObjects, hreset⟩ := failPending_ok this hnodup hpending
    rw [hok]
    apply requestBatches
    have hranks : ∀ i ∈ this.batches, (objects i).status.rank = 2 := by
      intro i hi
      rcases Nat.lt_trichotomy (this.objects i).startEpoch (this.objects id).startEpoch
        with hlt | heq | hgt
      · rw [hreset i hi hlt]
        rfl
      · rw [hsameObjects i fun hmem => Nat.lt_irrefl _ (heq ▸ hmem.2), hsame i hi heq]
        exact hid
      · rw [hsameObjects i fun hmem => Nat.lt_asymm hgt hmem.2]
        exact hafter i hi hgt
    refine ⟨h.lt_nextId, ?_, ?_, h.downloads_nodup, ?_, ?_, h.noWrongStatus⟩
    · apply h.ordered.imp_of_mem
      intro i j hi hj hij
      show (objects i).startEpoch < (objects j).startEpoch ∧ Precedes _ (objects j).status
      rw [hepochs, hepochs]
      exact ⟨hij.1, precedes_of_rank_two (hranks j hj) _⟩
    · intro i hi
      exact (h.startEpoch_le i hi).trans_eq (hepochs i).symm
    · intro i hi
      obtain ⟨hlt, hstatus⟩ := h.downloading i hi
      refine ⟨hlt, ?_⟩
      show (objects i).status = _
      rw [hsameObjects i]
      · exact hstatus
      · rintro ⟨hmem, hlt⟩
        rw [hbefore i hmem hlt] at hstatus
        cases hstatus
    · intro i blocks hl
      rw [show ({ this with objects } : SyncChain).loop = .waiting from hloop] at hl
      cases hl

theorem processingFailed (h : this.Inv) {id : Nat} {blocks : List SignedBeaconBlock}
    {err : ProcessingError} {peers : List PeerId} (hloop : this.loop = .processing id blocks)
    (horderly : Orderly this (.processingError err peers)) :
    (this.processingFailed id err peers).Inv := by
  obtain ⟨hid, hstatus⟩ := h.processing id blocks hloop
  obtain ⟨attempt, herror⟩ := Batch.processingError_eq hstatus err
  unfold SyncChain.processingFailed
  rw [herror]
  by_cases hexhausted : (this.objects id).Exhausted err
  · obtain ⟨e, batch, hbatch, htype, hepoch, _⟩ :=
      ((this.objects id).onError_cases err attempt).2 hexhausted
    rw [hbatch]
    exact ((h.placeProcessed hloop batch hepoch).withThrown e htype).withLoop _ (by simp)
  · obtain ⟨batch, hbatch, hepoch, hawaits⟩ :=
      ((this.objects id).onError_cases err attempt).1 hexhausted
    have hplace := h.placeProcessed hloop batch hepoch
    obtain ⟨hbefore, hafter, hsame⟩ := h.around_placeProcessed hloop hepoch rfl
    rw [hbatch]
    dsimp only [afterCall]
    set objects := Function.update this.objects id batch with hobjects
    have hself : objects id = batch := by rw [hobjects, Function.update_self]
    have hrank : (objects id).status.rank = 2 := by
      rw [hself, hawaits]
      rfl
    split_ifs with himported
    · obtain ⟨advanced, hadvance, hadvanced⟩ := hplace.advanceChain_ok hbefore
      rw [hadvance]
      have hadvancedInv := hplace.advanced hbefore hadvanced
      have hmem : ∀ i, i ∈ advanced.batches →
          i ∈ this.batches ∧ (objects id).startEpoch ≤ (objects i).startEpoch := by
        intro i hi
        rw [hadvanced.batches_eq, List.mem_filter] at hi
        exact ⟨hi.1, by simpa using hi.2⟩
      have hnone : ∀ i ∈ advanced.batches,
          ¬ (advanced.objects i).startEpoch < (advanced.objects id).startEpoch := by
        intro i hi
        rw [hadvanced.objects_eq]
        exact Nat.not_lt_of_le (hmem i hi).2
      apply hadvancedInv.failPending peers hadvanced.loop_eq
      · rw [hadvanced.objects_eq]
        exact hrank
      · exact fun i hi hlt => absurd hlt (hnone i hi)
      · rw [hadvanced.objects_eq]
        exact fun j hj => hafter j (hmem j hj).1
      · rw [hadvanced.objects_eq]
        exact fun i hi => hsame i (hmem i hi).1
      · exact fun i hi hlt => absurd hlt (hnone i hi)
    · apply hplace.failPending peers rfl hrank hbefore hafter hsame
      -- the batches before are those of the state before the step
      have hkept : ∀ i ∈ this.batches, (objects i).startEpoch < (objects id).startEpoch →
          objects i = this.objects i := by
        intro i hi hlt
        have hne : i ≠ id := by
          rintro rfl
          exact Nat.lt_irrefl _ hlt
        rw [hobjects, Function.update_of_ne hne]
      intro i hi hlt hex first hfirst
      have hepochId : (objects id).startEpoch = (this.objects id).startEpoch := by
        rw [hself, hepoch]
      have hfirstMem : first ∈ this.batches := List.mem_of_mem_head? hfirst
      have hfirstLt : (objects first).startEpoch < (objects id).startEpoch := by
        refine lt_of_le_of_lt ?_ hlt
        have hordered := hplace.ordered
        cases hbatches : this.batches with
        | nil =>
          rw [hbatches] at hi
          exact absurd hi List.not_mem_nil
        | cons head rest =>
          rw [hbatches] at hi hfirst
          obtain rfl : head = first := Option.some.inj hfirst
          rw [show ({ this with objects, loop := .waiting } : SyncChain).batches = head :: rest from
            hbatches] at hordered
          rcases List.mem_cons.mp hi with rfl | hi
          · exact le_refl _
          · exact ((List.pairwise_cons.mp hordered).1 i hi).1.le
      show (objects first).Exhausted err
      rw [hkept first hfirstMem hfirstLt]
      have hexi : (this.objects i).Exhausted err := by
        rw [← hkept i hi hlt]
        exact hex
      have hlti : (this.objects i).startEpoch < (this.objects id).startEpoch := by
        rw [← hkept i hi hlt, ← hepochId]
        exact hlt
      exact horderly id blocks hloop (Nat.eq_zero_of_not_pos himported) hexhausted i hi hlti hexi
        first hfirst

/-- One step of an orderly run. -/
theorem step (h : this.Inv) {event : Event} (henabled : this.Enabled event)
    (horderly : Orderly this event) : (this.apply event).Inv := by
  cases event with
  | addPeer peer target peers =>
    have hadded : ({ this with peerset := this.peerset.set peer target } : SyncChain).Inv :=
      { h with }
    exact hadded.computeTarget.requestBatches peers
  | removePeer peer =>
    have hremoved : ({ this with peerset := this.peerset.delete peer } : SyncChain).Inv :=
      { h with }
    exact hremoved.computeTarget
  | startSyncing localFinalizedEpoch peers => exact h.startSyncing horderly
  | stopSyncing => exact { h with }
  | remove => exact h.endProcessor .aborted
  | downloadingSuccess id blocks peers₁ peers₂ =>
    exact h.downloadingSuccess henabled.1 blocks peers₁ peers₂
  | downloadingError id peers₁ peers₂ => exact h.downloadingError henabled.1 peers₁ peers₂
  | next => exact h.next
  | iterate => exact h.iterate henabled
  | processingSuccess peers =>
    obtain ⟨⟨id, blocks, hloop⟩, _⟩ := henabled
    unfold SyncChain.apply
    rw [hloop]
    exact h.processed hloop peers
  | processingError err peers =>
    obtain ⟨⟨id, blocks, hloop⟩, _⟩ := henabled
    unfold SyncChain.apply
    rw [hloop]
    exact h.processingFailed hloop horderly
  | caught =>
    obtain ⟨error, hloop⟩ := henabled
    unfold SyncChain.apply
    rw [hloop]
    exact h.caught error
  | finished => exact { h.withLoop .ended (by simp) with }

/-- Every state of an orderly run. -/
theorem run {startEpoch : Nat} {initialTarget : ChainTarget} {epochsPerBatch : Nat}
    {events : List Event}
    (hrun : Run Orderly (.new startEpoch initialTarget epochsPerBatch) events this) : this.Inv := by
  induction hrun with
  | nil => exact .new startEpoch initialTarget epochsPerBatch
  | concat event _ henabled horderly ih => exact ih.step henabled horderly

end Inv

section

attribute [local instance] minimal

/-- A peer joins a chain, and the chain starts. -/
def startedEvents : List Event := [.addPeer 1 ⟨100, 7⟩ [1], .startSyncing 0 [1]]

def started : SyncChain := startedEvents.foldl apply (.new 0 ⟨100, 7⟩ 2)

theorem run_started {condition : SyncChain → Event → Prop}
    (hmeets : ∀ event ∈ startedEvents, ∀ this : SyncChain, this.batches = [] →
      condition this event) :
    Run condition (.new 0 ⟨100, 7⟩ 2) startedEvents started := by
  have hadd : Run condition (.new 0 ⟨100, 7⟩ 2) [.addPeer 1 ⟨100, 7⟩ [1]]
      ((SyncChain.new 0 ⟨100, 7⟩ 2).apply (.addPeer 1 ⟨100, 7⟩ [1])) :=
    .concat _ .nil (List.Perm.refl [1]) (hmeets _ List.mem_cons_self _ rfl)
  refine .concat _ hadd (List.Perm.refl [1]) (hmeets _ ?_ _ ?_)
  · exact List.mem_cons_of_mem _ List.mem_cons_self
  · decide +kernel

theorem orderly_started :
    ∀ event ∈ startedEvents, ∀ this : SyncChain, this.batches = [] → Orderly this event := by
  intro event hevent this hbatches
  rcases List.mem_pair.mp hevent with rfl | rfl
  · trivial
  · intro _ id hid
    rw [hbatches] at hid
    exact absurd hid List.not_mem_nil

end

/-- In a run whose restarts find the batches they drop to be validated, and whose resets find
attempts left, the batches keep their order and their methods the statuses they are for. -/
theorem disciplined_of_orderly [Preset] {startEpoch : Nat} {initialTarget : ChainTarget}
    {epochsPerBatch : Nat} {events : List Event}
    (hrun : Run Orderly (.new startEpoch initialTarget epochsPerBatch) events this) :
    this.Disciplined :=
  (Inv.run hrun).disciplined


section

attribute [local instance] minimal

/-- The first batch is downloaded and processed. -/
theorem disciplined_of_processed :
    ([.downloadingSuccess 0 [11, 12] [1] [1], .next, .iterate,
      .processingSuccess [1]].foldl apply started).Disciplined := by
  have hdownloaded := (run_started orderly_started).concat
    (.downloadingSuccess 0 [11, 12] [1] [1])
    ⟨by decide +kernel, List.Perm.refl _, List.Perm.refl _⟩ trivial
  have hnext := hdownloaded.concat .next ⟨by decide +kernel, by decide +kernel⟩ trivial
  have hloop : ([.downloadingSuccess 0 [11, 12] [1] [1], .next].foldl apply started).loop
      = .resumed := by decide +kernel
  have hiterate := hnext.concat .iterate hloop trivial
  exact disciplined_of_orderly (hiterate.concat (.processingSuccess [1])
    ⟨⟨0, [11, 12], by decide +kernel⟩, List.Perm.refl _⟩ trivial)

/-- A chain is stopped while its first batch is downloaded, and restarts at a later epoch. -/
theorem not_disciplined_of_restart :
    ¬ ∀ (startEpoch : Nat) (initialTarget : ChainTarget) (epochsPerBatch : Nat)
      (events : List Event) (this : SyncChain),
      Run (fun _ _ => True) (.new startEpoch initialTarget epochsPerBatch) events this →
        this.Disciplined := by
  intro h
  have hstopped := (run_started fun _ _ _ _ => trivial).concat .stopSyncing trivial trivial
  have hrestarted := hstopped.concat (.startSyncing 2 [1]) (List.Perm.refl _) trivial
  have hdisciplined := h _ _ _ _ _ hrestarted
  refine hdisciplined.noWrongStatus ⟨.WRONG_STATUS .AwaitingValidation, 0, .Downloading⟩ ?_
    .AwaitingValidation rfl
  decide +kernel

end

end SyncChain

end Lodestar.Sync
