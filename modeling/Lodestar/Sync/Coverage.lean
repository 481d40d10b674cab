import Lodestar.Sync.BatchDiscipline

/-!
# The slots that range sync requests

The batches of a chain tile the epochs from where it started: none is skipped
and none is requested twice. What is behind the first batch of the map was
validated or is finalized locally, so when the loop leaves every slot up to
that of the target is.
-/

namespace Lodestar.Sync

open Lodestar.Base Lodestar.StateTransition

/-! ## Tiles -/

section

variable {α : Type} {start : α → Nat} {width : Nat} {l : List α}

/-- Between the first tile and the end of a tile `b` there is a tile everywhere. -/
theorem exists_tile {a b : α} (h : (a :: l).IsChain fun a b => start b = start a + width)
    (hb : b ∈ a :: l) {x : Nat} (hle : start a ≤ x) (hlt : x < start b + width) :
    ∃ c ∈ a :: l, start c ≤ x ∧ x < start c + width ∧ start c ≤ start b := by
  induction l generalizing a with
  | nil =>
    rw [List.mem_singleton.mp hb] at hlt ⊢
    exact ⟨a, List.mem_cons_self, hle, hlt, le_refl _⟩
  | cons c l ih =>
    obtain ⟨hnext, hrest⟩ := List.isChain_cons_cons.mp h
    have hfrom : ∀ d ∈ c :: l, start c ≤ start d := by
      have htrans : (c :: l).IsChain fun a b => start a ≤ start b :=
        hrest.imp fun a b hab => by omega
      have : IsTrans α fun a b => start a ≤ start b := ⟨fun _ _ _ => le_trans⟩
      intro d hd
      rcases List.mem_cons.mp hd with rfl | hd
      · exact le_refl _
      · exact htrans.rel_cons hd
    rcases List.mem_cons.mp hb with rfl | hb
    · exact ⟨b, List.mem_cons_self, hle, hlt, le_refl _⟩
    · by_cases hx : x < start c
      · exact ⟨a, List.mem_cons_self, hle, by omega, by have := hfrom b hb; omega⟩
      · obtain ⟨d, hd, hd'⟩ := ih hrest hb (Nat.le_of_not_lt hx)
        exact ⟨d, List.mem_cons_of_mem _ hd, hd'⟩

theorem filter_suffix {p : α → Bool} (h : l.Pairwise fun a b => p a = true → p b = true) :
    l.filter p <:+ l := by
  induction l with
  | nil => exact List.suffix_refl []
  | cons a l ih =>
    obtain ⟨ha, hl⟩ := List.pairwise_cons.mp h
    by_cases hp : p a = true
    · rw [List.filter_eq_self.mpr (List.forall_mem_cons.mpr ⟨hp, fun b hb => ha b hb hp⟩)]
    · rw [List.filter_cons_of_neg hp]
      exact (ih hl).trans (List.suffix_cons a l)

end

/-! ## Requests of a batch -/

namespace Batch

variable {α : Type} {this : Batch}

/-- The slot is one of those that the batch requests. -/
def Requests (this : Batch) (slot : Nat) : Prop :=
  this.request.startSlot ≤ slot ∧ slot < this.request.startSlot + this.request.count

def Spans (this : Batch) (epochsPerBatch epoch : Nat) : Prop :=
  this.startEpoch ≤ epoch ∧ epoch < this.startEpoch + epochsPerBatch

section

variable [Preset] {epochsPerBatch slot : Nat}

theorem startSlot_le_iff (h : this.request = (Batch.new this.startEpoch epochsPerBatch).request)
    (hslot : 0 < slot) :
    this.request.startSlot ≤ slot ↔ this.startEpoch ≤ computeEpochAtSlot (slot - 1) := by
  have hstart : this.request.startSlot = this.startEpoch * SLOTS_PER_EPOCH + 1 := by rw [h]; rfl
  rw [hstart, computeEpochAtSlot, Nat.le_div_iff_mul_le Preset.SLOTS_PER_EPOCH_pos]
  omega

theorem lt_endSlot_iff (h : this.request = (Batch.new this.startEpoch epochsPerBatch).request)
    (hslot : 0 < slot) :
    slot < this.request.startSlot + this.request.count ↔
      computeEpochAtSlot (slot - 1) < this.startEpoch + epochsPerBatch := by
  have hstart : this.request.startSlot = this.startEpoch * SLOTS_PER_EPOCH + 1 := by rw [h]; rfl
  have hcount : this.request.count = epochsPerBatch * SLOTS_PER_EPOCH := by
    rw [h]
    exact Nat.add_sub_cancel_left ..
  rw [hstart, hcount, computeEpochAtSlot, Nat.div_lt_iff_lt_mul Preset.SLOTS_PER_EPOCH_pos,
    Nat.add_mul]
  omega

/-- The first slot of an epoch is requested with the epoch before it. -/
theorem requests_iff (h : this.request = (Batch.new this.startEpoch epochsPerBatch).request)
    (hslot : 0 < slot) :
    this.Requests slot ↔ this.Spans epochsPerBatch (computeEpochAtSlot (slot - 1)) :=
  and_congr (startSlot_le_iff h hslot) (lt_endSlot_iff h hslot)

end

/-- A call leaves the batch at its place, with its request. -/
def Keeps (this : Batch) : BatchResult α → Prop
  | .ok _ batch | .error _ batch =>
    batch.startEpoch = this.startEpoch ∧ batch.request = this.request

theorem startDownloading_keeps (peer : PeerId) : this.Keeps (this.startDownloading peer) := by
  unfold startDownloading
  split <;> exact ⟨rfl, rfl⟩

theorem downloadingSuccess_keeps (blocks : List SignedBeaconBlock) :
    this.Keeps (this.downloadingSuccess blocks) := by
  unfold downloadingSuccess
  split <;> exact ⟨rfl, rfl⟩

theorem downloadingError_keeps : this.Keeps this.downloadingError := by
  unfold downloadingError
  split
  · dsimp only
    split_ifs <;> exact ⟨rfl, rfl⟩
  · exact ⟨rfl, rfl⟩

theorem startProcessing_keeps : this.Keeps this.startProcessing := by
  unfold startProcessing
  split <;> exact ⟨rfl, rfl⟩

theorem processingSuccess_keeps : this.Keeps this.processingSuccess := by
  unfold processingSuccess
  split <;> exact ⟨rfl, rfl⟩

theorem onError_keeps (err : ProcessingError) (attempt : Attempt) :
    this.Keeps (this.onError err attempt) := by
  unfold onError onExecutionEngineError onProcessingError
  dsimp only
  split_ifs <;> exact ⟨rfl, rfl⟩

theorem processingError_keeps (err : ProcessingError) : this.Keeps (this.processingError err) := by
  unfold processingError
  split
  · exact onError_keeps err _
  · exact ⟨rfl, rfl⟩

theorem validationError_keeps (err : ProcessingError) : this.Keeps (this.validationError err) := by
  unfold validationError
  split
  · exact onError_keeps err _
  · exact ⟨rfl, rfl⟩

end Batch

namespace SyncChain

/-! ## The same batches -/

/-- `chain` has the batches of `this` at the same places; only those of the map may differ. -/
structure SameBatches (this chain : SyncChain) : Prop where
  batches_eq : chain.batches = this.batches
  nextId_eq : chain.nextId = this.nextId
  startEpoch_eq : chain.startEpoch = this.startEpoch
  epochsPerBatch_eq : chain.epochsPerBatch = this.epochsPerBatch
  places : ∀ id, (chain.objects id).startEpoch = (this.objects id).startEpoch ∧
    (chain.objects id).request = (this.objects id).request
  outside : ∀ id, id ∉ this.batches → chain.objects id = this.objects id

variable {α : Type} {this chain chain' : SyncChain}

namespace SameBatches

theorem refl (this : SyncChain) : SameBatches this this :=
  ⟨rfl, rfl, rfl, rfl, fun _ => ⟨rfl, rfl⟩, fun _ _ => rfl⟩

theorem trans (h : SameBatches this chain) (h' : SameBatches chain chain') :
    SameBatches this chain' where
  batches_eq := h'.batches_eq.trans h.batches_eq
  nextId_eq := h'.nextId_eq.trans h.nextId_eq
  startEpoch_eq := h'.startEpoch_eq.trans h.startEpoch_eq
  epochsPerBatch_eq := h'.epochsPerBatch_eq.trans h.epochsPerBatch_eq
  places id := ⟨(h'.places id).1.trans (h.places id).1, (h'.places id).2.trans (h.places id).2⟩
  outside id hid := (h'.outside id (h.batches_eq ▸ hid)).trans (h.outside id hid)

theorem afterCall {id : Nat} (hid : id ∈ this.batches) {result : BatchResult α}
    (hkeeps : (this.objects id).Keeps result) : SameBatches this (this.afterCall id result) := by
  have hwrite : ∀ batch : Batch, batch.startEpoch = (this.objects id).startEpoch →
      batch.request = (this.objects id).request →
      SameBatches this { this with objects := Function.update this.objects id batch } := by
    intro batch hepoch hrequest
    refine { refl this with places := fun i => ?_, outside := fun i hi => ?_ }
    · show (Function.update this.objects id batch i).startEpoch = _ ∧
        (Function.update this.objects id batch i).request = _
      by_cases hi : i = id
      · rw [hi, Function.update_self]
        exact ⟨hepoch, hrequest⟩
      · rw [Function.update_of_ne hi]
        exact ⟨rfl, rfl⟩
    · have hne : i ≠ id := by
        rintro rfl
        exact hi hid
      exact Function.update_of_ne hne ..
  cases result with
  | ok _ batch => exact hwrite batch hkeeps.1 hkeeps.2
  | error _ batch => exact { hwrite batch hkeeps.1 hkeeps.2 with }

theorem sendBatch {id : Nat} (hid : id ∈ this.batches) (peer : PeerId) :
    SameBatches this (this.sendBatch id peer) := by
  have hcall := afterCall hid (Batch.startDownloading_keeps peer)
  unfold SyncChain.sendBatch
  dsimp only
  split <;> exact { hcall with }

theorem retryBatches (peerBalancer : ChainPeersBalancer) {ids : List Nat}
    (hids : ∀ id ∈ ids, id ∈ this.batches) :
    SameBatches this (ids.foldl (fun this id => this.retryBatch peerBalancer id) this) := by
  induction ids generalizing this with
  | nil => exact refl this
  | cons id ids ih =>
    obtain ⟨hid, hids⟩ := List.forall_mem_cons.mp hids
    have hretry : SameBatches this (this.retryBatch peerBalancer id) := by
      unfold SyncChain.retryBatch
      split_ifs
      · exact refl this
      · split
        · exact refl this
        · exact sendBatch hid _
    exact hretry.trans (ih fun i hi => hretry.batches_eq ▸ hids i hi)

/-- Whether the loop over the earlier batches comes to its end or throws. -/
theorem failPending {startEpoch : Nat} {err : ProcessingError} {ids : List Nat}
    (hids : ∀ id ∈ ids, id ∈ this.batches) :
    (match SyncChain.failPending startEpoch err ids this with
      | .ok _ chain | .error _ chain => SameBatches this chain) := by
  induction ids generalizing this with
  | nil => exact refl this
  | cons id ids ih =>
    obtain ⟨hid, hids⟩ := List.forall_mem_cons.mp hids
    have hcall := afterCall hid (Batch.validationError_keeps err)
    unfold SyncChain.failPending
    split_ifs
    · dsimp only
      cases hresult : (this.objects id).validationError err with
      | error e batch =>
        rw [hresult] at hcall
        exact hcall
      | ok u batch =>
        rw [hresult] at hcall
        have hrest := @ih (this.afterCall id (.ok u batch)) fun i hi =>
          hcall.batches_eq ▸ hids i hi
        dsimp only
        cases hpending : SyncChain.failPending startEpoch err ids (this.afterCall id (.ok u batch)) <;>
          rw [hpending] at hrest <;> exact hcall.trans hrest
    · exact ih hids

end SameBatches

/-! ## The invariant -/

/-- The epoch the first batch of the map starts at, or the next one to be made. -/
def front (this : SyncChain) : Nat :=
  match this.batches.head? with
  | some id => (this.objects id).startEpoch
  | none => this.startEpoch

theorem front_nil (h : this.batches = []) : this.front = this.startEpoch := by
  rw [front, h]
  rfl

theorem front_cons {id : Nat} {ids : List Nat} (h : this.batches = id :: ids) :
    this.front = (this.objects id).startEpoch := by
  rw [front, h]
  rfl

/-- The epochs that were finalized locally when the chain was started. -/
def finalizedEpochs (events : List Event) : List Nat :=
  events.filterMap fun
    | .startSyncing localFinalizedEpoch _ => some localFinalizedEpoch
    | _ => none

/-- An epoch is in a batch that waits for validation or was validated, or finalized locally. -/
def Settled (finalized : List Nat) (ids : Nat → Prop) (this : SyncChain) (epoch : Nat) : Prop :=
  (∃ id < this.nextId, ids id ∧ (this.objects id).Spans this.epochsPerBatch epoch) ∨
    ∃ finalizedEpoch ∈ finalized, epoch < finalizedEpoch

/-- What holds in every state of an orderly run from a chain at `startEpoch`. -/
structure Covered [Preset] (startEpoch : Nat) (finalized : List Nat) (this : SyncChain) : Prop where
  lt_nextId : ∀ id ∈ this.batches, id < this.nextId
  request : ∀ id < this.nextId, (this.objects id).request
    = (Batch.new (this.objects id).startEpoch this.epochsPerBatch).request
  dropped : ∀ id < this.nextId, id ∉ this.batches →
    (this.objects id).status = .AwaitingValidation
  tiled : this.batches.IsChain fun i j =>
    (this.objects j).startEpoch = (this.objects i).startEpoch + this.epochsPerBatch
  behind : ∀ epoch, startEpoch ≤ epoch → epoch < this.front →
    this.Settled finalized (· ∉ this.batches) epoch

section

variable [Preset] {startEpoch : Nat} {finalized : List Nat}

namespace Covered

theorem new (startEpoch : Nat) (initialTarget : ChainTarget) (epochsPerBatch : Nat) :
    (SyncChain.new startEpoch initialTarget epochsPerBatch).Covered startEpoch finalized where
  lt_nextId := by simp [SyncChain.new]
  request := by simp [SyncChain.new]
  dropped := by simp [SyncChain.new]
  tiled := .nil
  behind epoch hle hlt := absurd hlt (Nat.not_lt_of_le hle)

theorem mono (h : this.Covered startEpoch finalized) {finalized' : List Nat}
    (hsub : ∀ epoch ∈ finalized, epoch ∈ finalized') : this.Covered startEpoch finalized' :=
  { h with
    behind := fun epoch hle hlt => (h.behind epoch hle hlt).imp_right fun ⟨e, he, hlt⟩ =>
      ⟨e, hsub e he, hlt⟩ }

theorem of_same (h : this.Covered startEpoch finalized) (hsame : SameBatches this chain) :
    chain.Covered startEpoch finalized := by
  have hfront : chain.front = this.front := by
    unfold front
    rw [hsame.batches_eq]
    cases this.batches.head? with
    | none => exact hsame.startEpoch_eq
    | some id => exact (hsame.places id).1
  refine ⟨?_, ?_, ?_, ?_, ?_⟩
  · rw [hsame.batches_eq, hsame.nextId_eq]
    exact h.lt_nextId
  · intro id hid
    rw [hsame.nextId_eq] at hid
    rw [(hsame.places id).1, (hsame.places id).2, hsame.epochsPerBatch_eq]
    exact h.request id hid
  · intro id hid hout
    rw [hsame.nextId_eq] at hid
    rw [hsame.batches_eq] at hout
    rw [hsame.outside id hout]
    exact h.dropped id hid hout
  · rw [hsame.batches_eq, hsame.epochsPerBatch_eq]
    exact h.tiled.imp fun i j hij => by rw [(hsame.places i).1, (hsame.places j).1, hij]
  · intro epoch hle hlt
    rw [hfront] at hlt
    refine (h.behind epoch hle hlt).imp_left ?_
    rintro ⟨id, hid, hout, hspans⟩
    rw [hsame.nextId_eq, hsame.batches_eq, hsame.epochsPerBatch_eq]
    exact ⟨id, hid, hout, by rwa [hsame.outside id hout]⟩

/-! ### Requests -/

/-- A new batch is the next tile. -/
theorem includeNextBatch (h : this.Covered startEpoch finalized) {id : Nat}
    (hnext : this.includeNextBatch = some (id, chain)) :
    chain.Covered startEpoch finalized ∧ id ∈ chain.batches := by
  unfold SyncChain.includeNextBatch at hnext
  dsimp only at hnext
  split_ifs at hnext
  obtain ⟨rfl, rfl⟩ := Prod.mk.inj (Option.some.inj hnext)
  set next := toBeDownloadedStartEpoch this.toArr this.startEpoch this.epochsPerBatch with hs
  set objects := Function.update this.objects this.nextId (Batch.new next this.epochsPerBatch)
    with hobjects
  have hself : objects this.nextId = .new next this.epochsPerBatch := by
    rw [hobjects, Function.update_self]
  have hold : ∀ i < this.nextId, objects i = this.objects i := by
    intro i hi
    rw [hobjects, Function.update_of_ne hi.ne]
  have hmem : ∀ i ∈ this.batches, objects i = this.objects i := fun i hi => hold i (h.lt_nextId i hi)
  refine ⟨⟨?_, ?_, ?_, ?_, ?_⟩, List.mem_append_right _ List.mem_cons_self⟩
  · intro i hi
    rcases List.mem_append.mp hi with hi | hi
    · exact Nat.lt_succ_of_lt (h.lt_nextId i hi)
    · rw [List.mem_singleton.mp hi]
      exact Nat.lt_succ_self _
  · intro i hi
    show (objects i).request = (Batch.new (objects i).startEpoch this.epochsPerBatch).request
    rcases Nat.lt_succ_iff_lt_or_eq.mp hi with hi | rfl
    · rw [hold i hi]
      exact h.request i hi
    · rw [hself]
      rfl
  · intro i hi hout
    obtain ⟨hout, hne⟩ := not_or.mp (List.mem_append.not.mp hout)
    have hi : i < this.nextId := by
      have hne' : i ≠ this.nextId := by simpa using hne
      have hlt : i < this.nextId + 1 := hi
      omega
    show (objects i).status = _
    rw [hold i hi]
    exact h.dropped i hi hout
  · show (this.batches ++ [this.nextId]).IsChain fun i j =>
      (objects j).startEpoch = (objects i).startEpoch + this.epochsPerBatch
    refine List.IsChain.append ?_ (List.isChain_singleton _) ?_
    · exact h.tiled.imp_of_mem_imp fun i j hi hj hij => by rw [hmem i hi, hmem j hj, hij]
    · intro last hlast j hj
      obtain rfl : this.nextId = j := by simpa using hj
      have hget : this.toArr.getLast? = some (this.objects last) := by
        rw [toArr, List.getLast?_map, hlast]
        rfl
      rw [hself, hmem last (List.mem_of_getLast? hlast)]
      show next = _
      rw [hs, toBeDownloadedStartEpoch, hget]
  · intro epoch hle hlt
    have hfront : epoch < this.front := by
      cases hbatches : this.batches with
      | nil =>
        have hnew : this.batches ++ [this.nextId] = [this.nextId] := by
          rw [hbatches]
          rfl
        have hlt := hlt.trans_eq (front_cons hnew)
        rw [front_nil hbatches]
        have hstart : next = this.startEpoch := by
          rw [hs, toBeDownloadedStartEpoch, toArr, hbatches]
          rfl
        exact (hlt.trans_eq (congrArg Batch.startEpoch hself)).trans_eq hstart
      | cons first rest =>
        have hnew : this.batches ++ [this.nextId] = first :: (rest ++ [this.nextId]) := by
          rw [hbatches]
          rfl
        have hlt := hlt.trans_eq (front_cons hnew)
        rw [front_cons hbatches, ← hmem first (hbatches ▸ List.mem_cons_self)]
        exact hlt
    refine (h.behind epoch hle hfront).imp_left ?_
    rintro ⟨i, hi, hout, hspans⟩
    refine ⟨i, Nat.lt_succ_of_lt hi, ?_, ?_⟩
    · show i ∉ this.batches ++ [this.nextId]
      simpa [hout] using hi.ne
    · show (objects i).Spans _ _
      rwa [hold i hi]

theorem requestNewBatches (h : this.Covered startEpoch finalized) (peers : List PeerId) :
    (SyncChain.requestNewBatches peers this).Covered startEpoch finalized := by
  induction peers generalizing this with
  | nil => exact h
  | cons peer peers ih =>
    unfold SyncChain.requestNewBatches
    cases hnext : this.includeNextBatch with
    | none => exact h
    | some next =>
      obtain ⟨hchain, hid⟩ := h.includeNextBatch hnext
      exact ih (hchain.of_same (.sendBatch hid peer))

theorem requestBatches (h : this.Covered startEpoch finalized) (peers : List PeerId) :
    (this.requestBatches peers).Covered startEpoch finalized := by
  unfold SyncChain.requestBatches
  split_ifs
  · exact h
  · exact (h.of_same (.retryBatches _ fun _ hid => hid)).requestNewBatches _

/-! ### Advancing -/

/-- What is dropped waits for validation, so the epochs behind the first batch stay settled. -/
theorem advanced (h : this.Covered startEpoch finalized) (hinv : this.Inv) {newStartEpoch : Nat}
    (hvalidated : ∀ id ∈ this.batches, (this.objects id).startEpoch < newStartEpoch →
      (this.objects id).status = .AwaitingValidation)
    (hadvanced : Advanced newStartEpoch this chain)
    (hreason : newStartEpoch ≤ this.startEpoch ∨
      (∃ id ∈ this.batches, newStartEpoch ≤ (this.objects id).startEpoch) ∨
      ∃ epoch ∈ finalized, newStartEpoch ≤ epoch) :
    chain.Covered startEpoch finalized := by
  have hmem : ∀ id, id ∈ chain.batches ↔
      id ∈ this.batches ∧ newStartEpoch ≤ (this.objects id).startEpoch := by
    intro id
    rw [hadvanced.batches_eq, List.mem_filter]
    simp
  have hsorted : this.batches.Pairwise fun i j =>
      (this.objects i).startEpoch < (this.objects j).startEpoch := hinv.ordered.imp And.left
  have hfrontLe : this.startEpoch ≤ this.front := by
    unfold front
    cases hhead : this.batches.head? with
    | none => exact le_refl _
    | some id => exact hinv.startEpoch_le id (List.mem_of_mem_head? hhead)
  refine ⟨?_, ?_, ?_, ?_, ?_⟩
  · intro id hid
    rw [hadvanced.nextId_eq]
    exact h.lt_nextId id ((hmem id).mp hid).1
  · rw [hadvanced.nextId_eq, hadvanced.objects_eq, hadvanced.epochsPerBatch_eq]
    exact h.request
  · intro id hid hout
    rw [hadvanced.nextId_eq] at hid
    rw [hadvanced.objects_eq]
    by_cases hin : id ∈ this.batches
    · exact hvalidated id hin (Nat.lt_of_not_le fun hle => hout ((hmem id).mpr ⟨hin, hle⟩))
    · exact h.dropped id hid hin
  · rw [hadvanced.batches_eq, hadvanced.objects_eq, hadvanced.epochsPerBatch_eq]
    refine h.tiled.suffix (filter_suffix (hsorted.imp fun hij hi => ?_))
    simp only [decide_eq_true_eq] at hi ⊢
    omega
  · intro epoch hle hlt
    have hold : epoch < this.front → chain.Settled finalized (· ∉ chain.batches) epoch := by
      intro hfront
      refine (h.behind epoch hle hfront).imp_left ?_
      rintro ⟨id, hid, hout, hspans⟩
      rw [hadvanced.nextId_eq, hadvanced.objects_eq, hadvanced.epochsPerBatch_eq]
      exact ⟨id, hid, fun hin => hout ((hmem id).mp hin).1, hspans⟩
    by_cases hfront : epoch < this.front
    · exact hold hfront
    unfold front at hlt
    cases hhead : chain.batches.head? with
    | none =>
      -- nothing is left of the map
      rw [hhead] at hlt
      have hnone : ∀ id ∈ this.batches, ¬ newStartEpoch ≤ (this.objects id).startEpoch := by
        intro id hid hstart
        have hin := (hmem id).mpr ⟨hid, hstart⟩
        rw [List.head?_eq_none_iff.mp hhead] at hin
        exact absurd hin List.not_mem_nil
      have hlt : epoch < chain.startEpoch := hlt
      rw [hadvanced.startEpoch_eq] at hlt
      rcases hreason with hstart | ⟨id, hid, hstart⟩ | ⟨e, he, hstart⟩
      · omega
      · exact absurd hstart (hnone id hid)
      · exact .inr ⟨e, he, by omega⟩
    | some j =>
      rw [hhead] at hlt
      have hlt : epoch < (chain.objects j).startEpoch := hlt
      rw [hadvanced.objects_eq] at hlt
      have hj := ((hmem j).mp (List.mem_of_mem_head? hhead)).1
      -- a batch that was dropped has the epoch
      cases hbatches : this.batches with
      | nil =>
        rw [hbatches] at hj
        exact absurd hj List.not_mem_nil
      | cons first rest =>
        have htiled := h.tiled
        rw [hbatches] at htiled hj
        have hfirst : (this.objects first).startEpoch ≤ epoch := by
          simpa [front, hbatches] using hfront
        obtain ⟨i, hi, hstart, hend, _⟩ := exists_tile htiled hj hfirst (by omega)
        rw [← hbatches] at hi
        refine .inl ⟨i, ?_, ?_, ?_⟩
        · rw [hadvanced.nextId_eq]
          exact h.lt_nextId i hi
        · intro hin
          have hchain := hsorted.sublist (List.filter_sublist (p := fun id =>
            decide (newStartEpoch ≤ (this.objects id).startEpoch)))
          rw [← hadvanced.batches_eq] at hchain
          obtain ⟨tail, htail⟩ : ∃ tail, chain.batches = j :: tail := List.head?_eq_some_iff.mp hhead
          rw [htail] at hin hchain
          rcases List.mem_cons.mp hin with rfl | hin
          · omega
          · have := (List.pairwise_cons.mp hchain).1 i hin
            omega
        · rw [hadvanced.objects_eq, hadvanced.epochsPerBatch_eq]
          exact ⟨hstart, hend⟩

/-! ### Events -/

theorem startSyncing (h : this.Covered startEpoch finalized) (hinv : this.Inv)
    {localFinalizedEpoch : Nat} {peers : List PeerId} (hlocal : localFinalizedEpoch ∈ finalized)
    (horderly : Orderly this (.startSyncing localFinalizedEpoch peers)) :
    (this.startSyncing localFinalizedEpoch peers).Covered startEpoch finalized := by
  unfold SyncChain.startSyncing
  cases hstatus : this.status with
  | Stopped =>
    have hsyncing : { this with status := .Syncing }.Inv := { hinv with }
    have hcovered : Covered startEpoch finalized { this with status := .Syncing } := { h with }
    obtain ⟨chain, hadvance, hadvanced⟩ := hsyncing.advanceChain_ok (horderly hstatus)
    dsimp only
    rw [show SyncChain.alignedEpoch { this with status := .Syncing } localFinalizedEpoch
      = this.alignedEpoch localFinalizedEpoch from rfl, hadvance]
    have hreason : this.alignedEpoch localFinalizedEpoch ≤ this.startEpoch ∨
        this.alignedEpoch localFinalizedEpoch ≤ localFinalizedEpoch := by
      have hle := Nat.div_mul_le_self (localFinalizedEpoch - this.startEpoch) EPOCHS_PER_BATCH
      unfold alignedEpoch
      omega
    have hchain := hcovered.advanced hsyncing (horderly hstatus) hadvanced
      (hreason.imp_right fun hle => .inr ⟨_, hlocal, hle⟩)
    exact { hchain.requestBatches peers with }
  | _ => exact h

theorem mem_batches_of_downloads (h : this.Covered startEpoch finalized) (hinv : this.Inv) {id : Nat}
    (hid : id ∈ this.downloads) : id ∈ this.batches := by
  obtain ⟨hlt, hstatus⟩ := hinv.downloading id hid
  by_contra hout
  rw [h.dropped id hlt hout] at hstatus
  cases hstatus

theorem downloaded (h : this.Covered startEpoch finalized) {id : Nat} (hid : id ∈ this.batches)
    {result : BatchResult Unit} (hkeeps : (this.objects id).Keeps result) (trigger : Bool)
    (peers₁ peers₂ : List PeerId) :
    (this.downloaded id result trigger peers₁ peers₂).Covered startEpoch finalized := by
  set chain : SyncChain := { this with downloads := this.downloads.erase id } with hchain
  have hcall : SameBatches chain (chain.afterCall id result) :=
    @SameBatches.afterCall Unit chain id hid result hkeeps
  have hcovered : chain.Covered startEpoch finalized := { h with }
  unfold SyncChain.downloaded
  cases result with
  | ok _ batch =>
    refine requestBatches (requestBatches (hcovered.of_same ?_) peers₁) peers₂
    cases trigger <;> exact { hcall with }
  | error e batch =>
    have hended : ((chain.afterCall id (.error e batch : BatchResult Unit)).endProcessor
        (.batch e)).Covered startEpoch finalized := { hcovered.of_same hcall with }
    exact hended.requestBatches peers₂

theorem iterate (h : this.Covered startEpoch finalized) :
    this.iterate.Covered startEpoch finalized := by
  unfold SyncChain.iterate
  split_ifs
  · exact { h with }
  · split
    · exact { h with }
    · dsimp only
      split_ifs
      · exact { h with }
      · split
        · exact { h with }
        · next id hnext =>
          obtain ⟨before, after, hbatches, _⟩ := getNextBatchToProcess_eq_some hnext
          have hid : id ∈ this.batches := by
            rw [hbatches]
            exact List.mem_append_right _ List.mem_cons_self
          have hcall := h.of_same (.afterCall hid Batch.startProcessing_keeps)
          split <;> exact { hcall with }

theorem processed (h : this.Covered startEpoch finalized) (hinv : this.Inv) {id : Nat}
    {blocks : List SignedBeaconBlock} (hloop : this.loop = .processing id blocks)
    (peers : List PeerId) : (this.processed id blocks peers).Covered startEpoch finalized := by
  obtain ⟨hid, hstatus⟩ := hinv.processing id blocks hloop
  obtain ⟨attempt, hsuccess⟩ := Batch.processingSuccess_ok hstatus
  have hcall := h.of_same (.afterCall hid Batch.processingSuccess_keeps)
  have hplace := hinv.placeProcessed hloop
    { this.objects id with state := .AwaitingValidation attempt } rfl
  unfold SyncChain.processed
  rw [hsuccess] at hcall ⊢
  dsimp only [afterCall] at hcall ⊢
  have hwaiting : Covered startEpoch finalized { this with
      objects := Function.update this.objects id
        { this.objects id with state := .AwaitingValidation attempt }
      loop := .waiting } := { hcall with }
  split_ifs
  · have hepoch : ({ this.objects id with state := .AwaitingValidation attempt } : Batch).startEpoch
        = (this.objects id).startEpoch := rfl
    have hvalidated := (hinv.around_placeProcessed hloop hepoch rfl).1
    obtain ⟨chain, hadvance, hadvanced⟩ := hplace.advanceChain_ok hvalidated
    rw [hadvance]
    have hchain := hwaiting.advanced hplace hvalidated hadvanced (.inr (.inl ⟨id, hid, le_refl _⟩))
    have htriggered : chain.triggerBatchProcessor.Covered startEpoch finalized := { hchain with }
    exact htriggered.requestBatches peers
  · have htriggered : Covered startEpoch finalized (triggerBatchProcessor { this with
        objects := Function.update this.objects id
          { this.objects id with state := .AwaitingValidation attempt }
        loop := .waiting }) := { hwaiting with }
    exact htriggered.requestBatches peers

theorem failPending (h : this.Covered startEpoch finalized) (failedEpoch : Nat)
    (err : ProcessingError) (peers : List PeerId) :
    (match SyncChain.failPending failedEpoch err this.batches this with
      | .error e this => { this with loop := .failed (.batch e) }
      | .ok _ this => this.requestBatches peers : SyncChain).Covered startEpoch finalized := by
  have hpending := @SameBatches.failPending this failedEpoch err this.batches fun _ hid => hid
  split
  all_goals
    next heq =>
      rw [heq] at hpending
      have hsame := h.of_same hpending
      first | exact hsame.requestBatches peers | exact { hsame with }

theorem processingFailed (h : this.Covered startEpoch finalized) (hinv : this.Inv) {id : Nat}
    {blocks : List SignedBeaconBlock} {err : ProcessingError} {peers : List PeerId}
    (hloop : this.loop = .processing id blocks) :
    (this.processingFailed id err peers).Covered startEpoch finalized := by
  obtain ⟨hid, hstatus⟩ := hinv.processing id blocks hloop
  have hkeeps : (this.objects id).Keeps ((this.objects id).processingError err) :=
    Batch.processingError_keeps err
  have hcall := h.of_same (.afterCall hid hkeeps)
  unfold SyncChain.processingFailed
  cases hresult : (this.objects id).processingError err with
  | error e batch =>
    rw [hresult] at hcall
    exact { hcall with }
  | ok _ batch =>
    rw [hresult] at hcall hkeeps
    have hplace := hinv.placeProcessed hloop batch hkeeps.1
    have hvalidated := (hinv.around_placeProcessed hloop hkeeps.1 rfl).1
    dsimp only [afterCall] at hcall ⊢
    have hwaiting : Covered startEpoch finalized { this with
        objects := Function.update this.objects id batch, loop := .waiting } := { hcall with }
    split_ifs
    · obtain ⟨chain, hadvance, hadvanced⟩ := hplace.advanceChain_ok hvalidated
      rw [hadvance]
      exact (hwaiting.advanced hplace hvalidated hadvanced
        (.inr (.inl ⟨id, hid, le_refl _⟩))).failPending _ err peers
    · exact hwaiting.failPending _ err peers

theorem computeTarget (h : this.Covered startEpoch finalized) :
    this.computeTarget.Covered startEpoch finalized := by
  unfold SyncChain.computeTarget
  split <;> exact { h with }

/-- One step of an orderly run. -/
theorem step (h : this.Covered startEpoch finalized) (hinv : this.Inv) {event : Event}
    (henabled : this.Enabled event) (horderly : Orderly this event)
    (hfinalized : ∀ epoch ∈ finalizedEpochs [event], epoch ∈ finalized) :
    (this.apply event).Covered startEpoch finalized := by
  cases event with
  | addPeer peer target peers =>
    have hadded : Covered startEpoch finalized
      { this with peerset := this.peerset.set peer target } := { h with }
    exact hadded.computeTarget.requestBatches peers
  | removePeer peer =>
    have hremoved : Covered startEpoch finalized
      { this with peerset := this.peerset.delete peer } := { h with }
    exact hremoved.computeTarget
  | startSyncing localFinalizedEpoch peers =>
    exact h.startSyncing hinv (hfinalized _ List.mem_cons_self) horderly
  | stopSyncing => exact { h with }
  | remove => exact { h with }
  | downloadingSuccess id blocks peers₁ peers₂ =>
    exact h.downloaded (h.mem_batches_of_downloads hinv henabled.1)
      (Batch.downloadingSuccess_keeps blocks) true peers₁ peers₂
  | downloadingError id peers₁ peers₂ =>
    exact h.downloaded (h.mem_batches_of_downloads hinv henabled.1)
      Batch.downloadingError_keeps false peers₁ peers₂
  | next =>
    show this.next.Covered startEpoch finalized
    unfold SyncChain.next
    split <;> exact { h with }
  | iterate => exact h.iterate
  | processingSuccess peers =>
    obtain ⟨⟨id, blocks, hloop⟩, _⟩ := henabled
    unfold SyncChain.apply
    rw [hloop]
    exact h.processed hinv hloop peers
  | processingError err peers =>
    obtain ⟨⟨id, blocks, hloop⟩, _⟩ := henabled
    unfold SyncChain.apply
    rw [hloop]
    exact h.processingFailed hinv hloop
  | caught =>
    obtain ⟨error, hloop⟩ := henabled
    unfold SyncChain.apply
    rw [hloop]
    cases error <;> exact { h with }
  | finished => exact { h with }

/-- Every state of an orderly run. -/
theorem run {initialTarget : ChainTarget} {epochsPerBatch : Nat} {events : List Event}
    (hrun : Run Orderly (.new startEpoch initialTarget epochsPerBatch) events this) :
    this.Covered startEpoch (finalizedEpochs events) := by
  induction hrun with
  | nil => exact .new startEpoch initialTarget epochsPerBatch
  | @concat events this event hrun henabled horderly ih =>
    have hsplit : finalizedEpochs (events ++ [event])
        = finalizedEpochs events ++ finalizedEpochs [event] := List.filterMap_append
    rw [hsplit]
    exact (ih.mono fun _ h => List.mem_append_left _ h).step (Inv.run hrun) henabled horderly
      fun _ h => List.mem_append_right _ h

/-- With the batches that wait for validation, everything up to the next epoch to be processed. -/
theorem settled_of_lt (h : this.Covered startEpoch finalized) (hinv : this.Inv) {epoch : Nat}
    (hle : startEpoch ≤ epoch)
    (hlt : epoch < toBeProcessedStartEpoch this.toArr this.startEpoch this.epochsPerBatch) :
    this.Settled finalized (fun id => (this.objects id).status = .AwaitingValidation) epoch := by
  by_cases hfront : epoch < this.front
  · refine (h.behind epoch hle hfront).imp_left ?_
    rintro ⟨id, hid, hout, hspans⟩
    exact ⟨id, hid, h.dropped id hid hout, hspans⟩
  unfold front at hfront
  unfold toBeProcessedStartEpoch at hlt
  cases hlast : this.toArr.reverse.find? (·.status = .AwaitingValidation) with
  | none =>
    rw [hlast] at hlt
    have hlt : epoch < this.startEpoch := hlt
    cases hhead : this.batches.head? with
    | none =>
      rw [hhead] at hfront
      exact absurd hlt hfront
    | some first =>
      rw [hhead] at hfront
      have hfirst := hinv.startEpoch_le first (List.mem_of_mem_head? hhead)
      exact absurd (hlt.trans_le hfirst) hfront
  | some last =>
    rw [hlast] at hlt
    have hlt : epoch < last.startEpoch + this.epochsPerBatch := hlt
    have hmem := List.mem_of_find?_eq_some hlast
    rw [List.mem_reverse] at hmem
    obtain ⟨j, hj, rfl⟩ := List.mem_map.mp hmem
    have hstatus : (this.objects j).status = .AwaitingValidation := by
      simpa using List.find?_some hlast
    cases hbatches : this.batches with
    | nil =>
      rw [hbatches] at hj
      exact absurd hj List.not_mem_nil
    | cons first rest =>
      have htiled := h.tiled
      rw [hbatches] at htiled hfront
      have hfirst : (this.objects first).startEpoch ≤ epoch := Nat.le_of_not_lt hfront
      obtain ⟨i, hi, hstart, hend, hij⟩ := exists_tile htiled (hbatches ▸ hj) hfirst hlt
      rw [← hbatches] at hi
      refine .inl ⟨i, h.lt_nextId i hi, ?_, hstart, hend⟩
      rcases hij.lt_or_eq with hlt | heq
      · -- it is before a batch that waits for validation
        have hprecedes := hinv.precedes hi hj hlt
        rw [hstatus] at hprecedes
        cases hs : (this.objects i).status <;> rw [hs] at hprecedes <;>
          first | rfl | exact absurd hprecedes (by decide)
      · by_contra hne
        have hsymm : Std.Symm fun i j => (this.objects i).startEpoch ≠ (this.objects j).startEpoch :=
          ⟨fun _ _ hij => hij.symm⟩
        exact (hinv.ordered.imp fun hij => hij.1.ne).forall hi hj
          (fun hid => hne (hid ▸ hstatus)) heq

end Covered

/-! ## The slots of a run -/

variable {initialTarget : ChainTarget} {epochsPerBatch : Nat} {events : List Event}

/-- When the loop leaves, every slot from the start of the chain to that of its target was requested
by a batch that was processed, or is up to an epoch that was finalized when the chain was started. -/
theorem requested_of_left
    (hrun : Run Orderly (.new startEpoch initialTarget epochsPerBatch) events this)
    (hleft : this.iterate.loop = .left) :
    ∀ slot, computeStartSlotAtEpoch startEpoch < slot → slot ≤ this.target.slot →
      (∃ id < this.nextId, (this.objects id).status = .AwaitingValidation ∧
        (this.objects id).Requests slot) ∨
      ∃ epoch ∈ finalizedEpochs events, slot ≤ computeStartSlotAtEpoch epoch := by
  intro slot hstart htarget
  have hcovered := Covered.run hrun
  have hpos : 0 < SLOTS_PER_EPOCH := Preset.SLOTS_PER_EPOCH_pos
  have hslot : 0 < slot := Nat.zero_lt_of_lt hstart
  have hprocessed : this.target.slot ≤ computeStartSlotAtEpoch
      (toBeProcessedStartEpoch this.toArr this.startEpoch this.epochsPerBatch) := by
    by_contra hnot
    unfold SyncChain.iterate at hleft
    rw [if_neg hnot] at hleft
    split at hleft
    · cases hleft
    · split at hleft
      · cases hleft
      · split at hleft
        · cases hleft
        · dsimp only at hleft
          split at hleft <;> cases hleft
  have hle : startEpoch ≤ computeEpochAtSlot (slot - 1) := by
    rw [computeEpochAtSlot, Nat.le_div_iff_mul_le hpos]
    exact Nat.le_sub_one_of_lt hstart
  have hlt : computeEpochAtSlot (slot - 1)
      < toBeProcessedStartEpoch this.toArr this.startEpoch this.epochsPerBatch := by
    rw [computeEpochAtSlot, Nat.div_lt_iff_lt_mul hpos]
    exact Nat.sub_one_lt_of_le hslot (htarget.trans hprocessed)
  rcases hcovered.settled_of_lt (Inv.run hrun) hle hlt with ⟨id, hid, hstatus, hspans⟩ | ⟨e, he, hlt⟩
  · exact .inl ⟨id, hid, hstatus, (Batch.requests_iff (hcovered.request id hid) hslot).mpr hspans⟩
  · refine .inr ⟨e, he, ?_⟩
    rw [computeEpochAtSlot, Nat.div_lt_iff_lt_mul hpos] at hlt
    exact Nat.le_of_pred_lt hlt

/-- Between the first and the last batch of the map each slot is requested by exactly one. -/
theorem existsUnique_requests
    (hrun : Run Orderly (.new startEpoch initialTarget epochsPerBatch) events this)
    {first last : Nat} (hfirst : this.batches.head? = some first)
    (hlast : last ∈ this.batches) {slot : Nat}
    (hle : (this.objects first).request.startSlot ≤ slot)
    (hlt : slot < (this.objects last).request.startSlot + (this.objects last).request.count) :
    ∃! id, id ∈ this.batches ∧ (this.objects id).Requests slot := by
  have hinv := Inv.run hrun
  have hcovered := Covered.run hrun
  have hmem : first ∈ this.batches := List.mem_of_mem_head? hfirst
  have hrequest := fun id (hid : id ∈ this.batches) =>
    hcovered.request id (hcovered.lt_nextId id hid)
  have hslot : 0 < slot := by
    rw [hrequest first hmem] at hle
    exact Nat.zero_lt_of_lt hle
  rw [Batch.startSlot_le_iff (hrequest first hmem) hslot] at hle
  rw [Batch.lt_endSlot_iff (hrequest last hlast) hslot] at hlt
  obtain ⟨rest, hbatches⟩ : ∃ rest, this.batches = first :: rest := List.head?_eq_some_iff.mp hfirst
  have htiled := hcovered.tiled
  have hfrom : (first :: rest).IsChain fun i j =>
      (this.objects j).startEpoch = (this.objects i).startEpoch + this.epochsPerBatch :=
    hbatches ▸ htiled
  obtain ⟨i, hi, hstart, hend, _⟩ := exists_tile hfrom (hbatches ▸ hlast) hle hlt
  rw [← hbatches] at hi
  refine ⟨i, ⟨hi, (Batch.requests_iff (hrequest i hi) hslot).mpr ⟨hstart, hend⟩⟩, ?_⟩
  rintro j ⟨hj, hrequests⟩
  obtain ⟨hstart', hend'⟩ := (Batch.requests_iff (hrequest j hj) hslot).mp hrequests
  -- tiles end where the next ones start
  have hapart : this.batches.Pairwise fun i j =>
      (this.objects i).startEpoch + this.epochsPerBatch ≤ (this.objects j).startEpoch := by
    have : IsTrans Nat fun i j =>
        (this.objects i).startEpoch + this.epochsPerBatch ≤ (this.objects j).startEpoch :=
      ⟨fun _ _ _ hij hjk => by omega⟩
    exact (htiled.imp fun _ _ hij => hij.ge).pairwise
  have hdistinct : this.batches.Pairwise fun i j =>
      (this.objects i).startEpoch + this.epochsPerBatch ≤ (this.objects j).startEpoch ∨
        (this.objects j).startEpoch + this.epochsPerBatch ≤ (this.objects i).startEpoch :=
    hapart.imp Or.inl
  have hsymm : Std.Symm fun i j =>
      (this.objects i).startEpoch + this.epochsPerBatch ≤ (this.objects j).startEpoch ∨
        (this.objects j).startEpoch + this.epochsPerBatch ≤ (this.objects i).startEpoch :=
    ⟨fun _ _ => Or.symm⟩
  by_contra hne
  rcases hdistinct.forall hj hi hne with hle | hle
  · omega
  · omega

/-- A download is awaited once, and of a batch that is still in the map. -/
theorem downloads_inMap
    (hrun : Run Orderly (.new startEpoch initialTarget epochsPerBatch) events this) :
    this.downloads.Nodup ∧ ∀ id ∈ this.downloads, id ∈ this.batches ∧
      (this.objects id).status = .Downloading :=
  ⟨(Inv.run hrun).downloads_nodup, fun id hid =>
    ⟨(Covered.run hrun).mem_batches_of_downloads (Inv.run hrun) hid,
      ((Inv.run hrun).downloading id hid).2⟩⟩

end

section

attribute [local instance] minimal

theorem downloads_started : started.downloads.Nodup ∧ ∀ id ∈ started.downloads,
    id ∈ started.batches ∧ (started.objects id).status = .Downloading :=
  downloads_inMap (run_started orderly_started)

/-- The first batch is processed, then the only peer left is one whose head is at slot 10. -/
def passedEvents : List Event :=
  [.downloadingSuccess 0 [11, 12] [1] [1], .next, .iterate, .processingSuccess [1], .removePeer 1,
    .addPeer 2 ⟨10, 7⟩ [2], .next]

def passed : SyncChain := passedEvents.foldl apply started

theorem run_passed : Run Orderly (.new 0 ⟨100, 7⟩ 2) (startedEvents ++ passedEvents) passed := by
  have hdownloaded := (run_started orderly_started).concat
    (.downloadingSuccess 0 [11, 12] [1] [1])
    ⟨by decide +kernel, List.Perm.refl _, List.Perm.refl _⟩ trivial
  have hnext := hdownloaded.concat .next ⟨by decide +kernel, by decide +kernel⟩ trivial
  have hloop : ([.downloadingSuccess 0 [11, 12] [1] [1], .next].foldl apply started).loop
      = .resumed := by decide +kernel
  have hprocessed := (hnext.concat .iterate hloop trivial).concat (.processingSuccess [1])
    ⟨⟨0, [11, 12], by decide +kernel⟩, List.Perm.refl _⟩ trivial
  have hremoved := hprocessed.concat (.removePeer 1) trivial trivial
  have hadded := hremoved.concat (.addPeer 2 ⟨10, 7⟩ [2]) (List.Perm.refl [2]) trivial
  exact hadded.concat .next ⟨by decide +kernel, by decide +kernel⟩ trivial

theorem requested_passed :
    (∃ id < passed.nextId, (passed.objects id).status = .AwaitingValidation ∧
      (passed.objects id).Requests 10) ∨
    ∃ epoch ∈ finalizedEpochs (startedEvents ++ passedEvents),
      10 ≤ computeStartSlotAtEpoch epoch :=
  requested_of_left run_passed (by decide +kernel) 10 (by decide +kernel) (by decide +kernel)

theorem existsUnique_started : ∃! id, id ∈ started.batches ∧ (started.objects id).Requests 5 :=
  existsUnique_requests (run_started orderly_started) (by decide +kernel : _ = some 0)
    (by decide +kernel : 0 ∈ _) (by decide +kernel) (by decide +kernel)

end

end SyncChain

end Lodestar.Sync
