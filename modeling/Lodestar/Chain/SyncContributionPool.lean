import Lodestar.Chain.AttestationPools
import Lodestar.Chain.GossipSyncCommittee

/-!
# The pool of sync committee contributions

`chain/opPools/syncContributionAndProofPool.ts`. For each slot, block root and
subcommittee the contribution with the most participants is kept; a sync
aggregate puts those of a block root together.
-/

namespace Lodestar.Chain

open Lodestar.Base

variable {B P : Type}

/-- `altair.SyncCommitteeContribution`, with `B` for the bytes of a signature. -/
structure SyncContribution (B : Type) where
  slot : Nat
  beaconBlockRoot : Root
  subcommitteeIndex : Nat
  aggregationBits : List Bool
  signature : B
  deriving DecidableEq

structure SyncContributionFast (B : Type) where
  syncSubcommitteeBits : List Bool
  numParticipants : Nat
  syncSubcommitteeSignature : B
  deriving DecidableEq

/-- `altair.SyncAggregate`, with `B` for the bytes of a signature. -/
structure ProducedSyncAggregate (B : Type) where
  syncCommitteeBits : List Bool
  syncCommitteeSignature : B
  deriving DecidableEq

/-- The contributions of a slot, by block root and subcommittee. -/
abbrev SyncContributionAndProofPool (B : Type) :=
  SlotPool (OrderedMap Root (OrderedMap Nat (SyncContributionFast B)))

def contributionToFast (contribution : SyncContribution B) (numParticipants : Nat) :
    SyncContributionFast B where
  syncSubcommitteeBits := contribution.aggregationBits
  numParticipants := numParticipants
  syncSubcommitteeSignature := contribution.signature

/-- Changes the best contribution if the new one has more participants. -/
def replaceIfBetter (bestContribution : SyncContributionFast B)
    (newContribution : SyncContribution B) (newNumParticipants : Nat) :
    InsertOutcome × SyncContributionFast B :=
  if newNumParticipants ≤ bestContribution.numParticipants then
    (.notBetterThan, bestContribution)
  else
    (.newData, { bestContribution with
      syncSubcommitteeBits := newContribution.aggregationBits
      numParticipants := newNumParticipants
      syncSubcommitteeSignature := newContribution.signature })

namespace SyncContributionAndProofPool

abbrev SLOTS_RETAINED : Nat := 8

abbrev MAX_ITEMS_PER_SLOT : Nat := 512

/-- What `add` does to the contributions of the slot. -/
def addToSlot (contribution : SyncContribution B) (syncCommitteeParticipants : Nat) :
    EStateM PoolError (OrderedMap Root (OrderedMap Nat (SyncContributionFast B))) InsertOutcome :=
  fun bestContributionBySubnetByRoot =>
    if MAX_ITEMS_PER_SLOT ≤ bestContributionBySubnetByRoot.size then
      .error .reachedMaxPerSlot bestContributionBySubnetByRoot
    else
      let bestContributionBySubnet :=
        (bestContributionBySubnetByRoot.get contribution.beaconBlockRoot).getD .empty
      let subnet := contribution.subcommitteeIndex
      let replaced := match bestContributionBySubnet.get subnet with
        | some bestContribution =>
          replaceIfBetter bestContribution contribution syncCommitteeParticipants
        | none => (.newData, contributionToFast contribution syncCommitteeParticipants)
      .ok replaced.1 (bestContributionBySubnetByRoot.set contribution.beaconBlockRoot
        (bestContributionBySubnet.set subnet replaced.2))

def add (contribution : SyncContribution B) (syncCommitteeParticipants : Nat) :
    EStateM PoolError (SyncContributionAndProofPool B) InsertOutcome := fun this =>
  if contribution.slot < this.lowestPermissibleSlot then
    .error (.slotTooLow contribution.slot this.lowestPermissibleSlot) this
  else this.update contribution.slot .empty (addToSlot contribution syncCommitteeParticipants)

def prune (this : SyncContributionAndProofPool B) (headSlot : Int) :
    SyncContributionAndProofPool B :=
  SlotPool.prune SLOTS_RETAINED this headSlot

section

variable [Preset]

abbrev subnetSize : Nat := SYNC_COMMITTEE_SIZE / SYNC_COMMITTEE_SUBNET_COUNT

/-- Sets the bits of a subcommittee in those of the committee. -/
def placeBits (indexOffset : Nat) : List Bool → Nat → List Bool → List Bool
  | [], _, syncCommitteeBits => syncCommitteeBits
  | participated :: bits, index, syncCommitteeBits =>
    placeBits indexOffset bits (index + 1)
      (if participated then setBit syncCommitteeBits (indexOffset + index) else syncCommitteeBits)

/-- The loop of `aggregate`: the bits and the signatures. -/
def aggregateLoop (bls : BlsSignature B P) :
    List (Nat × SyncContributionFast B) → List Bool × List P → Except String (List Bool × List P)
  | [], aggregated => .ok aggregated
  | (subnet, bestContribution) :: entries, (syncCommitteeBits, signatures) => do
    let syncCommitteeBits := placeBits (subnet * subnetSize) bestContribution.syncSubcommitteeBits 0
      syncCommitteeBits
    let signature ← bls.fromBytes bestContribution.syncSubcommitteeSignature
    aggregateLoop bls entries (syncCommitteeBits, signatures ++ [signature])

def aggregate (bls : BlsSignature B P)
    (bestContributionBySubnet : OrderedMap Nat (SyncContributionFast B)) :
    Except String (ProducedSyncAggregate B) := do
  let (syncCommitteeBits, signatures) ← aggregateLoop bls bestContributionBySubnet.entries
    (List.replicate SYNC_COMMITTEE_SIZE false, [])
  let signature ← bls.aggregate signatures
  return { syncCommitteeBits, syncCommitteeSignature := bls.toBytes signature }

def getAggregate (bls : BlsSignature B P) (this : SyncContributionAndProofPool B) (slot : Nat)
    (prevBlockRoot : Root) : Except String (ProducedSyncAggregate B) :=
  match (this.bySlot.get slot).bind (·.get prevBlockRoot) with
  | none => .ok ⟨List.replicate SYNC_COMMITTEE_SIZE false, bls.G2_POINT_AT_INFINITY⟩
  | some bestContributionBySubnet =>
    if bestContributionBySubnet.size = 0 then
      .ok ⟨List.replicate SYNC_COMMITTEE_SIZE false, bls.G2_POINT_AT_INFINITY⟩
    else aggregate bls bestContributionBySubnet

end

/-! ## Placed bits -/

theorem length_setBit {bits : List Bool} {i : Nat} (h : i < bits.length) :
    (setBit bits i).length = bits.length := by
  rw [setBit, if_pos h, List.length_set]

theorem getElem?_setBit {bits : List Bool} {i : Nat} (h : i < bits.length) (j : Nat) :
    (setBit bits i)[j]? = bits[j]?.map (· || decide (j = i)) := by
  rw [setBit, if_pos h, List.getElem?_set']
  by_cases hj : i = j
  · subst hj
    rw [if_pos rfl, List.getElem?_eq_getElem h]
    simp
  · rw [if_neg hj]
    cases bits[j]? <;> simp [Ne.symm hj]

/-- The bits of a subcommittee whose first member is at `indexOffset`. -/
def bitAt (indexOffset : Nat) (bits : List Bool) (i : Nat) : Bool :=
  decide (indexOffset ≤ i) && bits.getD (i - indexOffset) false

theorem placeBits_spec (indexOffset : Nat) (bits : List Bool) (index : Nat)
    {syncCommitteeBits : List Bool}
    (h : indexOffset + index + bits.length ≤ syncCommitteeBits.length) (j : Nat) :
    (placeBits indexOffset bits index syncCommitteeBits).length = syncCommitteeBits.length ∧
    (placeBits indexOffset bits index syncCommitteeBits)[j]? =
      syncCommitteeBits[j]?.map (· || bitAt (indexOffset + index) bits j) := by
  induction bits generalizing index syncCommitteeBits with
  | nil => simp [placeBits, bitAt]
  | cons participated bits ih =>
    rw [List.length_cons] at h
    have hlt : indexOffset + index < syncCommitteeBits.length := by omega
    have hbit : bitAt (indexOffset + index) (participated :: bits) j =
        ((participated && decide (j = indexOffset + index)) ||
          bitAt (indexOffset + (index + 1)) bits j) := by
      unfold bitAt
      rcases Nat.lt_trichotomy j (indexOffset + index) with hj | hj | hj
      · simp [Nat.not_le.2 hj, hj.ne, show ¬ indexOffset + (index + 1) ≤ j by omega]
      · subst hj
        simp [show ¬ indexOffset + (index + 1) ≤ indexOffset + index by omega]
      · obtain ⟨k, rfl⟩ := Nat.exists_eq_add_of_lt hj
        simp [show indexOffset + index + k + 1 - (indexOffset + index) = k + 1 by omega,
          show indexOffset + index + k + 1 - (indexOffset + (index + 1)) = k by omega,
          show indexOffset + index ≤ indexOffset + index + k + 1 by omega,
          show indexOffset + (index + 1) ≤ indexOffset + index + k + 1 by omega,
          show ¬ indexOffset + index + k + 1 = indexOffset + index by omega]
    unfold placeBits
    cases participated with
    | false =>
      obtain ⟨hlength, hget⟩ := ih (index + 1) (show _ ≤ syncCommitteeBits.length by omega)
      exact ⟨hlength, by rw [if_neg Bool.false_ne_true, hget, hbit]; simp⟩
    | true =>
      have hset := length_setBit hlt
      obtain ⟨hlength, hget⟩ := ih (index + 1)
        (show _ ≤ (setBit syncCommitteeBits (indexOffset + index)).length by omega)
      refine ⟨hlength.trans hset, ?_⟩
      rw [if_pos rfl, hget, getElem?_setBit hlt, Option.map_map, hbit]
      congr 1
      funext bit
      simp [Bool.or_assoc]

/-! ## The aggregate of a map -/

/-- The point that bytes are read as. -/
def point [Zero P] (bls : BlsSignature B P) (signature : B) : P :=
  (bls.fromBytes signature).toOption.getD 0

theorem point_of_ok [Zero P] {bls : BlsSignature B P} {signature : B} {p : P}
    (h : bls.fromBytes signature = .ok p) : point bls signature = p := by
  simp [point, h, Except.toOption]

section Aggregate

variable [Preset] [AddCommMonoid P] {bls : BlsSignature B P}

/-- The entry of a subcommittee of the committee, with a signature that can be read. -/
def EntryOk (bls : BlsSignature B P) (e : Nat × SyncContributionFast B) : Prop :=
  e.1 < SYNC_COMMITTEE_SUBNET_COUNT ∧ e.2.syncSubcommitteeBits.length = subnetSize ∧
    bls.fromBytes e.2.syncSubcommitteeSignature =
      .ok (point bls e.2.syncSubcommitteeSignature)

omit [AddCommMonoid P] in
theorem mul_subnetSize_le {subnet : Nat} (h : subnet < SYNC_COMMITTEE_SUBNET_COUNT) :
    subnet * subnetSize + subnetSize ≤ SYNC_COMMITTEE_SIZE := by
  rw [← Nat.succ_mul]
  exact (Nat.mul_le_mul_right _ h).trans (Nat.mul_div_le _ _)

theorem aggregateLoop_spec {entries : List (Nat × SyncContributionFast B)}
    (hentries : ∀ e ∈ entries, EntryOk bls e) {syncCommitteeBits : List Bool}
    (hlength : syncCommitteeBits.length = SYNC_COMMITTEE_SIZE) (signatures : List P) :
    ∃ syncCommitteeBits',
      aggregateLoop bls entries (syncCommitteeBits, signatures) =
        .ok (syncCommitteeBits',
          signatures ++ entries.map fun e => point bls e.2.syncSubcommitteeSignature) ∧
      ∀ j : Nat, syncCommitteeBits'[j]? = syncCommitteeBits[j]?.map (· ||
        entries.any fun e => bitAt (e.1 * subnetSize) e.2.syncSubcommitteeBits j) := by
  induction entries generalizing syncCommitteeBits signatures with
  | nil => exact ⟨syncCommitteeBits, by simp [aggregateLoop], fun j => by simp⟩
  | cons e entries ih =>
    obtain ⟨hsubnet, hbits, hread⟩ := hentries e List.mem_cons_self
    have hfits : e.1 * subnetSize + 0 + e.2.syncSubcommitteeBits.length ≤
        syncCommitteeBits.length := by
      rw [hbits, hlength]
      exact mul_subnetSize_le hsubnet
    have hplace := placeBits_spec (e.1 * subnetSize) e.2.syncSubcommitteeBits 0 hfits
    obtain ⟨syncCommitteeBits', hrun, hget⟩ := ih
      (fun d hd => hentries d (List.mem_cons_of_mem _ hd)) ((hplace 0).1.trans hlength)
      (signatures ++ [point bls e.2.syncSubcommitteeSignature])
    refine ⟨syncCommitteeBits', ?_, fun j => ?_⟩
    · show (bls.fromBytes e.2.syncSubcommitteeSignature >>= _) = _
      rw [hread, List.map_cons, List.append_cons]
      exact hrun
    · rw [hget j, (hplace j).2, Option.map_map, List.any_cons]
      congr 1
      funext bit
      simp [Bool.or_assoc]

omit [AddCommMonoid P] in
theorem bitAt_eq {subnet j : Nat} {bits : List Bool} (hbits : bits.length = subnetSize) :
    bitAt (subnet * subnetSize) bits j =
      (decide (subnet = j / subnetSize) && bits.getD (j % subnetSize) false) := by
  rcases Nat.eq_zero_or_pos subnetSize with hzero | hpos
  · obtain rfl : bits = [] := List.length_eq_zero_iff.1 (hbits.trans hzero)
    simp [bitAt]
  unfold bitAt
  by_cases hsubnet : subnet = j / subnetSize
  · subst hsubnet
    have hle : j / subnetSize * subnetSize ≤ j := Nat.div_mul_le_self _ _
    have hmod : j - j / subnetSize * subnetSize = j % subnetSize := by
      rw [Nat.mod_eq_sub_div_mul]
    simp [hle, hmod]
  · rw [decide_eq_false hsubnet, Bool.false_and]
    by_cases hle : subnet * subnetSize ≤ j
    · have hpast : bits.length ≤ j - subnet * subnetSize := by
        have hlt : subnet < j / subnetSize :=
          lt_of_le_of_ne ((Nat.le_div_iff_mul_le hpos).2 hle) hsubnet
        have hnext : (subnet + 1) * subnetSize ≤ j := (Nat.le_div_iff_mul_le hpos).1 hlt
        rw [Nat.succ_mul] at hnext
        omega
      rw [List.getD_eq_default _ _ hpast, Bool.and_false]
    · simp [hle]

omit [Preset] in
theorem sum_entries {α : Type} {m : OrderedMap Nat α} {n : Nat} (hkeys : ∀ k ∈ m.keys, k < n)
    (f : α → P) : (m.entries.map fun e => f e.2).sum =
      ∑ k ∈ Finset.range n, ((m.get k).map f).getD 0 := by
  have hget : (m.entries.map fun e => f e.2) = m.keys.map fun k => ((m.get k).map f).getD 0 := by
    unfold OrderedMap.keys
    rw [List.map_map]
    refine List.map_congr_left fun e he => ?_
    have hsome : m.get e.1 = some e.2 := OrderedMap.get_eq_some_iff.2 he
    simp [hsome]
  have hnodup : m.keys.Nodup := m.nodup
  rw [hget, ← List.sum_toFinset _ hnodup]
  refine Finset.sum_subset (fun k hk => ?_) fun k _ hk => ?_
  · exact Finset.mem_range.2 (hkeys k (List.mem_toFinset.1 hk))
  · rw [OrderedMap.get_eq_none_iff.2 fun hmem => hk (List.mem_toFinset.2 hmem)]
    rfl

end Aggregate

/-! ## The best contribution of each subcommittee -/

/-- What the pool keeps for a slot, block root and subcommittee. -/
def bestAt (this : SyncContributionAndProofPool B) (slot : Nat) (root : Root) (subnet : Nat) :
    Option (SyncContributionFast B) :=
  ((this.bySlot.get slot).bind (·.get root)).bind (·.get subnet)

/-- The contribution is for the slot, block root and subcommittee. -/
def IsFor (contribution : SyncContribution B) (slot : Nat) (root : Root) (subnet : Nat) : Prop :=
  contribution.slot = slot ∧ contribution.beaconBlockRoot = root ∧
    contribution.subcommitteeIndex = subnet

instance (contribution : SyncContribution B) (slot : Nat) (root : Root) (subnet : Nat) :
    Decidable (IsFor contribution slot root subnet) :=
  inferInstanceAs (Decidable (_ ∧ _ ∧ _))

/-- The number of set bits. -/
def participants (contribution : SyncContribution B) : Nat :=
  contribution.aggregationBits.count true

/-- A contribution of `kept` with the most participants, if there is any. -/
def IsBest (kept : List (SyncContribution B)) (slot : Nat) (root : Root) (subnet : Nat) :
    Option (SyncContribution B) → Prop
  | none => ∀ c ∈ kept, ¬ IsFor c slot root subnet
  | some best => best ∈ kept ∧ IsFor best slot root subnet ∧
    ∀ c ∈ kept, IsFor c slot root subnet → participants c ≤ participants best

section Best

variable {this after : SyncContributionAndProofPool B} {contribution : SyncContribution B}
  {slot : Nat} {root : Root} {subnet : Nat}

theorem bestAt_add_error {count : Nat} {e : PoolError}
    (h : add contribution count this = .error e after) :
    bestAt after slot root subnet = bestAt this slot root subnet := by
  unfold add at h
  split at h
  · cases h
    rfl
  · unfold SlotPool.update addToSlot at h
    split at h
    · cases h
      show ((OrderedMap.get _ slot).bind _).bind _ = _
      rw [OrderedMap.get_set]
      split
      · next hslot =>
        rw [Option.bind_some, OrderedMap.get_getD_empty, hslot]
        rfl
      · rfl
    · cases h

theorem bestAt_add_ok {count : Nat} {insertOutcome : InsertOutcome}
    (h : add contribution count this = .ok insertOutcome after) :
    bestAt after slot root subnet =
      if IsFor contribution slot root subnet then
        some ((bestAt this slot root subnet).elim (contributionToFast contribution count)
          fun best => (replaceIfBetter best contribution count).2)
      else bestAt this slot root subnet := by
  unfold add at h
  split at h
  · cases h
  unfold SlotPool.update addToSlot at h
  split at h
  · cases h
  cases h
  show ((OrderedMap.get _ slot).bind _).bind _ = _
  rw [OrderedMap.get_set]
  by_cases hslot : slot = contribution.slot
  swap
  · rw [if_neg hslot, if_neg fun hfor => hslot hfor.1.symm]
    rfl
  rw [if_pos hslot, Option.bind_some, OrderedMap.get_set]
  by_cases hroot : root = contribution.beaconBlockRoot
  swap
  · rw [if_neg hroot, if_neg fun hfor => hroot hfor.2.1.symm, OrderedMap.get_getD_empty, hslot]
    rfl
  rw [if_pos hroot, Option.bind_some, OrderedMap.get_set]
  by_cases hsubnet : subnet = contribution.subcommitteeIndex
  swap
  · rw [if_neg hsubnet, if_neg fun hfor => hsubnet hfor.2.2.symm, OrderedMap.get_getD_empty,
      OrderedMap.get_getD_empty, hslot, hroot]
    rfl
  rw [if_pos hsubnet, if_pos ⟨hslot.symm, hroot.symm, hsubnet.symm⟩, OrderedMap.get_getD_empty,
    OrderedMap.get_getD_empty, bestAt, hslot, hroot, hsubnet]
  split
  · next best hbest => rw [hbest]; rfl
  · next hnone => rw [hnone]; rfl

theorem bestAt_prune {headSlot : Int} (h : slot ∈ (this.prune headSlot).bySlot.keys) :
    bestAt (this.prune headSlot) slot root subnet = bestAt this slot root subnet := by
  have hsome := SlotPool.mem_keys_iff.1 h
  have hget : (this.prune headSlot).bySlot.get slot = this.bySlot.get slot ∨
      (this.prune headSlot).bySlot.get slot = none := SlotPool.get_prune_eq_or
  rcases hget with heq | hnone
  · rw [bestAt, heq, bestAt]
  · rw [hnone] at hsome
    cases hsome

end Best

/-! ## Runs -/

section Received

variable [Preset] [AddCommMonoid P] {bls : BlsSignature B P} {sign : Nat → Root → Nat → P}
  {kept : List (SyncContribution B)} {this : SyncContributionAndProofPool B}
  {slot : Nat} {root : Root} {subnet : Nat}

/-- The contribution is of its subcommittee, and its signature is the sum of those of the members
whose bits are set; `sign` is by slot, block root and position in the committee. -/
structure Valid (bls : BlsSignature B P) (sign : Nat → Root → Nat → P)
    (c : SyncContribution B) : Prop where
  subnet_lt : c.subcommitteeIndex < SYNC_COMMITTEE_SUBNET_COUNT
  length_bits : c.aggregationBits.length = subnetSize
  signature : bls.fromBytes c.signature =
    .ok (∑ i ∈ (Finset.range subnetSize).filter fun i => c.aggregationBits.getD i false = true,
      sign c.slot c.beaconBlockRoot (c.subcommitteeIndex * subnetSize + i))

/-- Additions of valid contributions and prunes, with the contributions that `add` accepted and
whose slot no prune has dropped since. -/
inductive Received (bls : BlsSignature B P) (sign : Nat → Root → Nat → P) :
    List (SyncContribution B) → SyncContributionAndProofPool B → Prop
  | new : Received bls sign [] .new
  | add {kept : List (SyncContribution B)} {this after : SyncContributionAndProofPool B}
    {c : SyncContribution B} {insertOutcome : InsertOutcome} : Received bls sign kept this →
    Valid bls sign c → add c (participants c) this = .ok insertOutcome after →
    Received bls sign (kept ++ [c]) after
  | refused {kept : List (SyncContribution B)} {this after : SyncContributionAndProofPool B}
    {c : SyncContribution B} {e : PoolError} : Received bls sign kept this →
    Valid bls sign c → SyncContributionAndProofPool.add c (participants c) this = .error e after →
    Received bls sign kept after
  | prune {kept : List (SyncContribution B)} {this : SyncContributionAndProofPool B}
    (headSlot : Int) : Received bls sign kept this →
    Received bls sign (kept.filter fun c => decide (c.slot ∈ (this.prune headSlot).bySlot.keys))
      (this.prune headSlot)

theorem Received.valid (h : Received bls sign kept this) : ∀ c ∈ kept, Valid bls sign c := by
  induction h with
  | new => simp
  | add _ hc _ ih =>
    intro c hmem
    rcases List.mem_append.1 hmem with hmem | hmem
    · exact ih c hmem
    · rw [List.mem_singleton.1 hmem]
      exact hc
  | refused _ _ _ ih => exact ih
  | prune _ _ ih => exact fun c hmem => ih c (List.mem_of_mem_filter hmem)

omit [Preset] in
theorem replaceIfBetter_fast (b c : SyncContribution B) (m n : Nat) :
    (replaceIfBetter (contributionToFast b m) c n).2 =
      if n ≤ m then contributionToFast b m else contributionToFast c n := by
  unfold replaceIfBetter
  split
  · next h => exact (if_pos h).symm
  · next h => exact (if_neg h).symm

omit [Preset] [AddCommMonoid P] in
theorem IsBest.append {best : Option (SyncContribution B)} {c : SyncContribution B}
    (h : IsBest kept slot root subnet best) (hfor : IsFor c slot root subnet) :
    ∃ best', IsBest (kept ++ [c]) slot root subnet (some best') ∧
      contributionToFast best' (participants best') =
        (best.map fun b => contributionToFast b (participants b)).elim
          (contributionToFast c (participants c))
          fun b => (replaceIfBetter b c (participants c)).2 := by
  cases best with
  | none =>
    refine ⟨c, ⟨by simp, hfor, fun d hd hdfor => ?_⟩, rfl⟩
    rcases List.mem_append.1 hd with hd | hd
    · exact (h d hd hdfor).elim
    · rw [List.mem_singleton.1 hd]
  | some b =>
    obtain ⟨hmem, hbfor, hmax⟩ := h
    by_cases hle : participants c ≤ participants b
    · refine ⟨b, ⟨List.mem_append_left _ hmem, hbfor, fun d hd hdfor => ?_⟩, ?_⟩
      · rcases List.mem_append.1 hd with hd | hd
        · exact hmax d hd hdfor
        · rw [List.mem_singleton.1 hd]
          exact hle
      · exact ((replaceIfBetter_fast b c _ _).trans (if_pos hle)).symm
    · refine ⟨c, ⟨by simp, hfor, fun d hd hdfor => ?_⟩, ?_⟩
      · rcases List.mem_append.1 hd with hd | hd
        · exact (hmax d hd hdfor).trans (Nat.le_of_not_le hle)
        · rw [List.mem_singleton.1 hd]
      · exact ((replaceIfBetter_fast b c _ _).trans (if_neg hle)).symm

omit [Preset] [AddCommMonoid P] in
theorem IsBest.append_of_not {best : Option (SyncContribution B)} {c : SyncContribution B}
    (h : IsBest kept slot root subnet best) (hfor : ¬ IsFor c slot root subnet) :
    IsBest (kept ++ [c]) slot root subnet best := by
  have hmem : ∀ d ∈ kept ++ [c], IsFor d slot root subnet → d ∈ kept := by
    intro d hd hdfor
    rcases List.mem_append.1 hd with hd | hd
    · exact hd
    · rw [List.mem_singleton.1 hd] at hdfor
      exact (hfor hdfor).elim
  cases best with
  | none => exact fun d hd hdfor => h d (hmem d hd hdfor) hdfor
  | some b =>
    exact ⟨List.mem_append_left _ h.1, h.2.1, fun d hd hdfor => h.2.2 d (hmem d hd hdfor) hdfor⟩

/-- In every run the pool keeps a contribution with the most participants. -/
theorem Received.isBest (h : Received bls sign kept this) :
    ∃ best, IsBest kept slot root subnet best ∧ bestAt this slot root subnet =
      best.map fun c => contributionToFast c (participants c) := by
  induction h with
  | new => exact ⟨none, fun c hc => (List.not_mem_nil hc).elim, rfl⟩
  | @add kept this after c _ _ _ hadd ih =>
    obtain ⟨best, hbest, heq⟩ := ih
    rw [bestAt_add_ok hadd]
    by_cases hfor : IsFor c slot root subnet
    · obtain ⟨best', hbest', hfast⟩ := hbest.append hfor
      refine ⟨some best', hbest', ?_⟩
      rw [if_pos hfor, heq, Option.map_some, hfast]
    · rw [if_neg hfor]
      exact ⟨best, hbest.append_of_not hfor, heq⟩
  | refused _ _ hadd ih =>
    rw [bestAt_add_error hadd]
    exact ih
  | @prune kept this headSlot _ ih =>
    by_cases hslot : slot ∈ (this.prune headSlot).bySlot.keys
    · obtain ⟨best, hbest, heq⟩ := ih
      rw [bestAt_prune hslot]
      refine ⟨best, ?_, heq⟩
      cases best with
      | none => exact fun c hc => hbest c (List.mem_of_mem_filter hc)
      | some b =>
        refine ⟨List.mem_filter.2 ⟨hbest.1, ?_⟩, hbest.2.1,
          fun c hc => hbest.2.2 c (List.mem_of_mem_filter hc)⟩
        rw [hbest.2.1.1]
        exact decide_eq_true hslot
    · refine ⟨none, fun c hc hfor => ?_, ?_⟩
      · have hheld := of_decide_eq_true (List.mem_filter.1 hc).2
        rw [hfor.1] at hheld
        exact hslot hheld
      · unfold bestAt
        rw [OrderedMap.get_eq_none_iff.2 hslot]
        rfl

/-! ## The produced aggregate -/

/-- The bit of a position of the committee: that of its subcommittee's contribution. -/
def committeeBit (best : Nat → Option (SyncContribution B)) (i : Nat) : Bool :=
  ((best (i / subnetSize)).map fun c => c.aggregationBits.getD (i % subnetSize) false).getD false

section Produced

variable {best : Nat → Option (SyncContribution B)}
  {m : OrderedMap Nat (SyncContributionFast B)}

omit [AddCommMonoid P] in
theorem any_bitAt (hm : ∀ k, m.get k = (best k).map fun c => contributionToFast c (participants c))
    (hlength : ∀ k c, best k = some c → c.aggregationBits.length = subnetSize) (j : Nat) :
    (m.entries.any fun e => bitAt (e.1 * subnetSize) e.2.syncSubcommitteeBits j) =
      committeeBit best j := by
  have hentry : ∀ e ∈ m.entries, ∃ c, best e.1 = some c ∧
      e.2 = contributionToFast c (participants c) := by
    intro e he
    have hsome : m.get e.1 = some e.2 := OrderedMap.get_eq_some_iff.2 he
    rw [hm, Option.map_eq_some_iff] at hsome
    obtain ⟨c, hc, hfast⟩ := hsome
    exact ⟨c, hc, hfast.symm⟩
  rw [Bool.eq_iff_iff, List.any_eq_true]
  unfold committeeBit
  constructor
  · rintro ⟨e, he, hbit⟩
    obtain ⟨c, hc, hfast⟩ := hentry e he
    rw [hfast] at hbit
    change bitAt (e.1 * subnetSize) c.aggregationBits j = true at hbit
    rw [bitAt_eq (hlength _ _ hc), Bool.and_eq_true, decide_eq_true_eq] at hbit
    rw [← hbit.1, hc]
    exact hbit.2
  · intro hbit
    cases hc : best (j / subnetSize) with
    | none => rw [hc] at hbit; cases hbit
    | some c =>
      rw [hc] at hbit
      have hsome := hm (j / subnetSize)
      rw [hc] at hsome
      refine ⟨_, OrderedMap.get_eq_some_iff.1 hsome, ?_⟩
      show bitAt _ c.aggregationBits j = true
      rw [bitAt_eq (hlength _ _ hc), Bool.and_eq_true, decide_eq_true_eq]
      exact ⟨rfl, hbit⟩

omit [Preset] in
theorem sum_parts (f : Nat → P) (n size : Nat) :
    ∑ i ∈ Finset.range (n * size), f i =
      ∑ k ∈ Finset.range n, ∑ j ∈ Finset.range size, f (k * size + j) := by
  induction n with
  | zero => simp
  | succ n ih => rw [Finset.sum_range_succ, ← ih, Nat.succ_mul, Finset.sum_range_add]

/-- The signatures of the contributions add up to those of the positions whose bits are set. -/
theorem sum_points (hvalid : ∀ k c, best k = some c → Valid bls sign c ∧ IsFor c slot root k) :
    ∑ subnet ∈ Finset.range SYNC_COMMITTEE_SUBNET_COUNT,
        ((best subnet).map fun c => point bls c.signature).getD 0 =
      ∑ i ∈ (Finset.range SYNC_COMMITTEE_SIZE).filter fun i => committeeBit best i = true,
        sign slot root i := by
  have hpart : ∀ k j, j < subnetSize → committeeBit best (k * subnetSize + j) =
      ((best k).map fun c => c.aggregationBits.getD j false).getD false := by
    intro k j hj
    have hpos : 0 < subnetSize := by omega
    have hdiv : (k * subnetSize + j) / subnetSize = k := by
      rw [mul_comm, Nat.mul_add_div hpos, Nat.div_eq_of_lt hj, add_zero]
    have hmod : (k * subnetSize + j) % subnetSize = j := by
      rw [mul_comm, Nat.mul_add_mod, Nat.mod_eq_of_lt hj]
    rw [committeeBit, hdiv, hmod]
  have hpoint : ∀ k, ((best k).map fun c => point bls c.signature).getD 0 =
      ∑ j ∈ Finset.range subnetSize, if committeeBit best (k * subnetSize + j) = true then
        sign slot root (k * subnetSize + j) else 0 := by
    intro k
    cases hc : best k with
    | none =>
      refine (Finset.sum_eq_zero fun j hj => ?_).symm
      rw [hpart k j (Finset.mem_range.1 hj), hc]
      rfl
    | some c =>
      obtain ⟨hc', rfl, rfl, rfl⟩ := hvalid k c hc
      show point bls c.signature = _
      rw [point_of_ok hc'.signature, Finset.sum_filter]
      refine Finset.sum_congr rfl fun j hj => ?_
      rw [hpart _ j (Finset.mem_range.1 hj), hc]
      rfl
  have hpast : ∀ i, SYNC_COMMITTEE_SUBNET_COUNT * subnetSize ≤ i → committeeBit best i = false := by
    intro i hi
    unfold committeeBit
    cases hc : best (i / subnetSize) with
    | none => rfl
    | some c =>
      obtain ⟨hc', hfor⟩ := hvalid _ c hc
      have hlt := hc'.subnet_lt
      rw [hfor.2.2] at hlt
      rcases Nat.eq_zero_or_pos subnetSize with hzero | hpos
      · have hnil := List.length_eq_zero_iff.1 (hc'.length_bits.trans hzero)
        simp [hnil]
      · exact absurd ((Nat.le_div_iff_mul_le hpos).2 hi) (Nat.not_le.2 hlt)
  have hle : SYNC_COMMITTEE_SUBNET_COUNT * subnetSize ≤ SYNC_COMMITTEE_SIZE := Nat.mul_div_le _ _
  calc _ = ∑ i ∈ Finset.range (SYNC_COMMITTEE_SUBNET_COUNT * subnetSize),
        if committeeBit best i = true then sign slot root i else 0 := by
        rw [sum_parts]
        exact Finset.sum_congr rfl fun k _ => hpoint k
    _ = ∑ i ∈ Finset.range SYNC_COMMITTEE_SIZE,
        if committeeBit best i = true then sign slot root i else 0 := by
        refine Finset.sum_subset (Finset.range_subset_range.2 hle) fun i _ hi => ?_
        rw [hpast i (by simpa using hi)]
        rfl
    _ = _ := (Finset.sum_filter _ _).symm

end Produced

/-- The bits and the signature of the best contributions. -/
def aggregateOf (bls : BlsSignature B P) (best : Nat → Option (SyncContribution B)) :
    ProducedSyncAggregate B where
  syncCommitteeBits := (List.range SYNC_COMMITTEE_SIZE).map (committeeBit best)
  syncCommitteeSignature := bls.toBytes (∑ subnet ∈ Finset.range SYNC_COMMITTEE_SUBNET_COUNT,
    ((best subnet).map fun c => point bls c.signature).getD 0)

section AggregateOf

variable {best : Nat → Option (SyncContribution B)} {m : OrderedMap Nat (SyncContributionFast B)}

/-- Without a contribution no bit is set, and the signature is the point at infinity. -/
theorem aggregateOf_none (hbls : bls.Lawful) (hnone : ∀ k, best k = none) :
    aggregateOf bls best =
      ⟨List.replicate SYNC_COMMITTEE_SIZE false, bls.G2_POINT_AT_INFINITY⟩ := by
  have hbits : (List.range SYNC_COMMITTEE_SIZE).map (committeeBit best) =
      List.replicate SYNC_COMMITTEE_SIZE false := by
    refine List.eq_replicate_iff.2 ⟨by simp, fun bit hbit => ?_⟩
    obtain ⟨i, -, rfl⟩ := List.mem_map.1 hbit
    rw [committeeBit, hnone]
    rfl
  rw [aggregateOf, hbits, ← hbls.toBytes_zero]
  simp [hnone]

theorem aggregate_eq (hbls : bls.Lawful)
    (hm : ∀ k, m.get k = (best k).map fun c => contributionToFast c (participants c))
    (hvalid : ∀ k c, best k = some c → Valid bls sign c ∧ IsFor c slot root k)
    (hsize : m.size ≠ 0) : aggregate bls m = .ok (aggregateOf bls best) := by
  have hentries : ∀ e ∈ m.entries, EntryOk bls e := by
    intro e he
    have hsome : m.get e.1 = some e.2 := OrderedMap.get_eq_some_iff.2 he
    rw [hm, Option.map_eq_some_iff] at hsome
    obtain ⟨c, hc, hfast⟩ := hsome
    obtain ⟨hc', hfor⟩ := hvalid _ c hc
    rw [EntryOk, ← hfast]
    refine ⟨hfor.2.2 ▸ hc'.subnet_lt, hc'.length_bits, ?_⟩
    show bls.fromBytes c.signature = .ok (point bls c.signature)
    rw [point_of_ok hc'.signature, hc'.signature]
  have hlength : (List.replicate SYNC_COMMITTEE_SIZE false).length = SYNC_COMMITTEE_SIZE :=
    List.length_replicate
  obtain ⟨syncCommitteeBits, hrun, hget⟩ := aggregateLoop_spec hentries hlength []
  have hbits : syncCommitteeBits = (List.range SYNC_COMMITTEE_SIZE).map (committeeBit best) := by
    refine List.ext_getElem? fun j => ?_
    rw [hget j, any_bitAt hm fun k c hc => (hvalid k c hc).1.length_bits, List.getElem?_map]
    rcases Nat.lt_or_ge j SYNC_COMMITTEE_SIZE with hj | hj
    · simp [hj]
    · simp [Nat.not_lt.2 hj]
  have hkeys : ∀ k ∈ m.keys, k < SYNC_COMMITTEE_SUBNET_COUNT := by
    intro k hk
    obtain ⟨e, he, rfl⟩ := List.mem_map.1 hk
    exact (hentries e he).1
  have hsum : (m.entries.map fun e => point bls e.2.syncSubcommitteeSignature).sum =
      ∑ subnet ∈ Finset.range SYNC_COMMITTEE_SUBNET_COUNT,
        ((best subnet).map fun c => point bls c.signature).getD 0 := by
    rw [sum_entries hkeys fun fast => point bls fast.syncSubcommitteeSignature]
    refine Finset.sum_congr rfl fun k _ => ?_
    rw [hm, Option.map_map]
    rfl
  have hne : (m.entries.map fun e => point bls e.2.syncSubcommitteeSignature) ≠ [] := by
    intro hnil
    exact hsize (List.length_eq_zero_iff.2 (List.map_eq_nil_iff.1 hnil))
  rw [List.nil_append] at hrun
  show (aggregateLoop bls m.entries _ >>= _) = _
  rw [hrun]
  show (bls.aggregate _ >>= _) = _
  rw [hbls.aggregate_of_ne_nil hne, hsum]
  exact congrArg (fun bits => Except.ok (ProducedSyncAggregate.mk bits _)) hbits

theorem getAggregate_eq (hbls : bls.Lawful)
    (hbest : ∀ subnet, bestAt this slot root subnet =
      (best subnet).map fun c => contributionToFast c (participants c))
    (hvalid : ∀ k c, best k = some c → Valid bls sign c ∧ IsFor c slot root k) :
    this.getAggregate bls slot root = .ok (aggregateOf bls best) := by
  unfold getAggregate
  cases hmap : (this.bySlot.get slot).bind (·.get root) with
  | none =>
    refine congrArg Except.ok (aggregateOf_none hbls fun k => ?_).symm
    have hnone := hbest k
    rw [bestAt, hmap] at hnone
    exact Option.map_eq_none_iff.1 hnone.symm
  | some m =>
    have hm : ∀ k, m.get k = (best k).map fun c => contributionToFast c (participants c) := by
      intro k
      rw [← hbest k, bestAt, hmap]
      rfl
    show (if m.size = 0 then _ else _) = _
    by_cases hsize : m.size = 0
    · rw [if_pos hsize]
      refine congrArg Except.ok (aggregateOf_none hbls fun k => ?_).symm
      have hnil : m.entries = [] := List.length_eq_zero_iff.1 hsize
      have hnone := hm k
      rw [OrderedMap.get, hnil] at hnone
      exact Option.map_eq_none_iff.1 hnone.symm
    · rw [if_neg hsize]
      exact aggregate_eq hbls hm hvalid hsize

end AggregateOf

/-- In every run the aggregate is that of the best contributions that are kept: their bits at the
positions of their subcommittees, and the sum of their signatures, which is that of the positions
whose bits are set. -/
theorem Received.getAggregate (hbls : bls.Lawful) (h : Received bls sign kept this) (slot : Nat)
    (root : Root) :
    ∃ best : Nat → Option (SyncContribution B),
      (∀ subnet, IsBest kept slot root subnet (best subnet)) ∧
      ∃ aggregate, this.getAggregate bls slot root = .ok aggregate ∧
        aggregate.syncCommitteeBits = (List.range SYNC_COMMITTEE_SIZE).map (committeeBit best) ∧
        aggregate.syncCommitteeSignature =
          bls.toBytes (∑ subnet ∈ Finset.range SYNC_COMMITTEE_SUBNET_COUNT,
            ((best subnet).map fun c => point bls c.signature).getD 0) ∧
        aggregate.syncCommitteeSignature =
          bls.toBytes (∑ i ∈ (Finset.range SYNC_COMMITTEE_SIZE).filter fun i =>
            aggregate.syncCommitteeBits.getD i false = true, sign slot root i) ∧
        ((∀ bit ∈ aggregate.syncCommitteeBits, bit = false) →
          aggregate.syncCommitteeSignature = bls.G2_POINT_AT_INFINITY) := by
  have hexists : ∀ subnet, ∃ best, IsBest kept slot root subnet best ∧
      bestAt this slot root subnet = best.map fun c => contributionToFast c (participants c) :=
    fun subnet => h.isBest
  choose best hbest hat using hexists
  have hvalid : ∀ k c, best k = some c → Valid bls sign c ∧ IsFor c slot root k := by
    intro k c hc
    have hbest := hbest k
    rw [hc] at hbest
    exact ⟨h.valid c hbest.1, hbest.2.1⟩
  have hbit : ∀ i ∈ Finset.range SYNC_COMMITTEE_SIZE,
      (aggregateOf bls best).syncCommitteeBits.getD i false = committeeBit best i := by
    intro i hi
    simp [aggregateOf, Finset.mem_range.1 hi]
  have hsigned : (aggregateOf bls best).syncCommitteeSignature =
      bls.toBytes (∑ i ∈ (Finset.range SYNC_COMMITTEE_SIZE).filter fun i =>
        (aggregateOf bls best).syncCommitteeBits.getD i false = true, sign slot root i) := by
    rw [Finset.filter_congr fun i hi => by rw [hbit i hi], ← sum_points hvalid]
    rfl
  refine ⟨best, hbest, _, getAggregate_eq hbls hat hvalid, rfl, rfl, hsigned, fun hfalse => ?_⟩
  rw [hsigned, ← hbls.toBytes_zero, Finset.filter_false_of_mem, Finset.sum_empty]
  intro i hi
  rw [hbit i hi]
  have hmem : committeeBit best i ∈ (aggregateOf bls best).syncCommitteeBits :=
    List.mem_map_of_mem (List.mem_range.2 (Finset.mem_range.1 hi))
  rw [hfalse _ hmem]
  exact Bool.false_ne_true

end Received

/-! ## A slot that is dropped and comes back -/

attribute [local instance] minimal

/-- The first `count` members of subcommittee 0 contribute at the slot. -/
def contributionAt (slot count : Nat) : SyncContribution (Multiset Nat) where
  slot := slot
  beaconBlockRoot := 0xb1
  subcommitteeIndex := 0
  aggregationBits := (List.range 8).map fun i => decide (i < count)
  signature := ((Finset.range 8).filter fun i =>
    ((List.range 8).map fun i => decide (i < count)).getD i false = true).val

def memberOf (_slot : Nat) (_root : Root) (i : Nat) : Multiset Nat := {i}

theorem valid_contributionAt (slot count : Nat) :
    Valid MatchingDataAttestationGroup.signers memberOf (contributionAt slot count) where
  subnet_lt := show 0 < SYNC_COMMITTEE_SUBNET_COUNT by decide
  length_bits := by
    show ((List.range 8).map _).length = 32 / 4
    simp
  signature := by
    refine congrArg Except.ok ?_
    show _ = ∑ i ∈ _, ({0 * subnetSize + i} : Multiset Nat)
    simp only [Nat.zero_mul, Nat.zero_add]
    exact (Finset.sum_multiset_singleton _).symm

/-- Additions one after the other. -/
def addAll (contributions : List (SyncContribution (Multiset Nat)))
    (this : SyncContributionAndProofPool (Multiset Nat)) :
    SyncContributionAndProofPool (Multiset Nat) :=
  contributions.foldl (fun this c => stateOf (add c (participants c) this)) this

theorem getAggregate_contributionAt :
    ∃ best : Nat → Option (SyncContribution (Multiset Nat)),
      (∀ subnet, IsBest [contributionAt 1 2] 1 0xb1 subnet (best subnet)) ∧
      ∃ aggregate, (addAll [contributionAt 1 2] .new).getAggregate
          MatchingDataAttestationGroup.signers 1 0xb1 = .ok aggregate ∧
        aggregate.syncCommitteeBits = (List.range 32).map (committeeBit best) := by
  have hadd : add (contributionAt 1 2) (participants (contributionAt 1 2)) .new =
      .ok .newData (addAll [contributionAt 1 2] .new) := rfl
  have hreceived := Received.add .new (valid_contributionAt 1 2) hadd
  obtain ⟨best, hbest, aggregate, haggregate, hbits, -⟩ :=
    Received.getAggregate MatchingDataAttestationGroup.lawful_signers hreceived 1 0xb1
  exact ⟨best, hbest, aggregate, haggregate, hbits⟩

/-- Two members contribute at slot 1, one at each slot from 2 to 9. -/
def nineSlots : List (SyncContribution (Multiset Nat)) :=
  contributionAt 1 2 :: (List.range 8).map fun i => contributionAt (i + 2) 1

/-- After a prune at slot 9 one member contributes at slot 1 again. -/
def comesBack : SyncContributionAndProofPool (Multiset Nat) :=
  addAll [contributionAt 1 1] ((addAll nineSlots .new).prune 9)

/-- The contribution with the most participants at slot 1 is not in the aggregate. -/
theorem getAggregate_comesBack :
    (∀ c ∈ nineSlots ++ [contributionAt 1 1],
      Valid MatchingDataAttestationGroup.signers memberOf c) ∧
    ∃ aggregate,
      comesBack.getAggregate MatchingDataAttestationGroup.signers 1 0xb1 = .ok aggregate ∧
      aggregate.syncCommitteeBits.getD 1 false = false ∧
      ∀ best, IsBest (nineSlots ++ [contributionAt 1 1]) 1 0xb1 0 (some best) →
        best.aggregationBits.getD 1 false = true := by
  refine ⟨?_, ?_⟩
  · intro c hc
    simp only [nineSlots, List.cons_append, List.mem_cons, List.mem_append, List.mem_map,
      List.not_mem_nil, or_false] at hc
    rcases hc with rfl | ⟨i, -, rfl⟩ | rfl <;> exact valid_contributionAt _ _
  · have hrun : ((comesBack.getAggregate MatchingDataAttestationGroup.signers 1
        0xb1).toOption.map fun aggregate => aggregate.syncCommitteeBits.getD 1 false) =
          some false := by decide +kernel
    obtain ⟨aggregate, haggregate, hbit⟩ := exists_ok_of_map hrun
    refine ⟨aggregate, haggregate, hbit, fun best hbest => ?_⟩
    obtain ⟨hmem, hfor, hmax⟩ := hbest
    have hcount := hmax (contributionAt 1 2) (by simp [nineSlots]) ⟨rfl, rfl, rfl⟩
    simp only [nineSlots, List.cons_append, List.mem_cons, List.mem_append, List.mem_map,
      List.not_mem_nil, or_false] at hmem
    rcases hmem with rfl | ⟨i, -, rfl⟩ | rfl
    · decide
    · have hslot : i + 2 = 1 := hfor.1
      omega
    · revert hcount
      decide

end SyncContributionAndProofPool

end Lodestar.Chain
