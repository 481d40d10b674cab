import Lodestar.LightClient.Lightclient

/-!
# The chain of committees

A committee is stored only for an update that the committee of the period
before has signed. Once the committee of a period has signed, the one before it
is gone or goes with the next, so it is not replaced any more.
-/

namespace Lodestar.LightClient

open Lodestar.Base Lodestar.StateTransition

section Main

variable [Preset] [LightclientCrypto]

/-- The second committee is that of an update for the period signed by the first. -/
def IsNextOf (period : Nat) (signer stored : StoredSyncCommittee) : Prop :=
  ∃ update : LightClientUpdate,
    computeSyncPeriodAtSlot (activeHeader update).slot = period ∧
    assertValidLightClientUpdate signer.toSyncCommitteeFast update = .ok () ∧
    deserializeSyncCommittee update.nextSyncCommittee = .ok stored.toSyncCommitteeFast

namespace Lightclient

/-! ## One step -/

omit [Preset] in
theorem syncCommitteeByPeriod_registerParticipation (this : Lightclient)
    (period participation : Nat) :
    (this.registerParticipation period participation).syncCommitteeByPeriod
      = this.syncCommitteeByPeriod := by
  unfold registerParticipation
  split_ifs <;> rfl

theorem syncCommitteeByPeriod_processHeaderUpdate {this this' : Lightclient} {slot : Int}
    {headerUpdate : LightclientHeaderUpdate}
    (h : this.processHeaderUpdate slot headerUpdate = .ok this') :
    this'.syncCommitteeByPeriod = this.syncCommitteeByPeriod := by
  unfold processHeaderUpdate at h
  dsimp only at h
  by_cases hfuture : (headerUpdate.attestedHeader.slot : Int) > slot
  · rw [if_pos hfuture] at h
    cases h
  · rw [if_neg hfuture] at h
    split at h
    · cases h
    · obtain ⟨_, _, h⟩ := eq_ok_of_bind h
      by_cases hlow : sumBits headerUpdate.syncAggregate.syncCommitteeBits
          < this.maxParticipation (computeSyncPeriodAtSlot headerUpdate.attestedHeader.slot)
            / SAFETY_THRESHOLD_FACTOR
      · rw [if_pos hlow] at h
        cases h
      · rw [if_neg hlow] at h
        split_ifs at h
        · rw [← Except.ok.inj h]
          exact syncCommitteeByPeriod_registerParticipation ..
        · rw [← Except.ok.inj h]
          exact syncCommitteeByPeriod_registerParticipation ..

theorem processSyncCommitteeUpdate_cases {this this' : Lightclient} {slot : Int}
    {update : LightClientUpdate}
    (h : this.processSyncCommitteeUpdate slot update = .ok this') :
    this'.syncCommitteeByPeriod = this.syncCommitteeByPeriod ∨
      ∃ period signer stored, this.syncCommitteeByPeriod.get period = some signer ∧
        IsNextOf period signer stored ∧
        this'.syncCommitteeByPeriod
          = (this.syncCommitteeByPeriod.set (period + 1) stored).pruneToMax
              MAX_STORED_SYNC_COMMITTEES := by
  unfold processSyncCommitteeUpdate at h
  dsimp only at h
  by_cases hfuture : ((activeHeader update).slot : Int) > slot
  · rw [if_pos hfuture] at h
    cases h
  · rw [if_neg hfuture] at h
    by_cases hrollback :
        (computeSyncPeriodAtSlot (activeHeader update).slot : WithBot Nat) < this.minPeriod
    · rw [if_pos hrollback] at h
      cases h
    rw [if_neg hrollback] at h
    split at h
    · cases h
    · rename_i signer hsigner
      obtain ⟨⟨⟩, hvalid, h⟩ := eq_ok_of_bind h
      unfold storeNextSyncCommittee at h
      dsimp only at h
      split_ifs at h
      · obtain ⟨committee, hcommittee, h⟩ := eq_ok_of_bind h
        rw [← Except.ok.inj h]
        exact .inr ⟨_, signer, _, hsigner, ⟨update, rfl, hvalid, hcommittee⟩, rfl⟩
      · rw [← Except.ok.inj h]
        exact .inl rfl

theorem step_cases (this : Lightclient) (event : LightclientEvent) :
    (this.step event).syncCommitteeByPeriod = this.syncCommitteeByPeriod ∨
      ∃ period signer stored, this.syncCommitteeByPeriod.get period = some signer ∧
        IsNextOf period signer stored ∧
        (this.step event).syncCommitteeByPeriod
          = (this.syncCommitteeByPeriod.set (period + 1) stored).pruneToMax
              MAX_STORED_SYNC_COMMITTEES := by
  cases event with
  | headerUpdate headerUpdate slot =>
    left
    unfold step
    dsimp only
    cases h : this.processHeaderUpdate slot headerUpdate with
    | error _ => rfl
    | ok this' => exact syncCommitteeByPeriod_processHeaderUpdate h
  | syncCommitteeUpdate update slot =>
    unfold step
    dsimp only
    cases h : this.processSyncCommitteeUpdate slot update with
    | error _ => exact .inl rfl
    | ok this' => exact processSyncCommitteeUpdate_cases h

/-! ## The committees of a run -/

/-- The last committee stored for each period, from those stored so far. -/
def lastCommittees (this : Lightclient) (stored : Nat → Option StoredSyncCommittee) :
    List LightclientEvent → Nat → Option StoredSyncCommittee
  | [] => stored
  | event :: events => (this.step event).lastCommittees
      (fun period => ((this.step event).syncCommitteeByPeriod.get period).or (stored period)) events

/-- The committees stored from the period `bootstrap` on, up to a state whose least period is
`p`. -/
structure Chained (bootstrap p : Nat) (stored : Nat → Option StoredSyncCommittee)
    (this : Lightclient) : Prop where
  bootstrap_le : bootstrap ≤ p
  keys : this.syncCommitteeByPeriod.keys = [p] ∨ this.syncCommitteeByPeriod.keys = [p, p + 1]
  get : ∀ period committee, this.syncCommitteeByPeriod.get period = some committee →
    stored period = some committee
  above : ∀ period, (∀ key ∈ this.syncCommitteeByPeriod.keys, key < period) →
    stored period = none
  next : ∀ period committee, bootstrap ≤ period → stored (period + 1) = some committee →
    ∃ signer, stored period = some signer ∧ IsNextOf period signer committee

variable {bootstrap p : Nat} {stored : Nat → Option StoredSyncCommittee} {this : Lightclient}

theorem Chained.head?_keys (h : Chained bootstrap p stored this) :
    this.syncCommitteeByPeriod.keys.head? = some p := by
  rcases h.keys with hkeys | hkeys
  · rw [hkeys]
    rfl
  · rw [hkeys]
    rfl

omit [Preset] in
theorem keys_pruneToMax_set {m : OrderedMap Nat StoredSyncCommittee} {p period : Nat}
    {committee : StoredSyncCommittee} (hkeys : m.keys = [p] ∨ m.keys = [p, p + 1])
    (hperiod : period ∈ m.keys) :
    ((m.set (period + 1) committee).pruneToMax MAX_STORED_SYNC_COMMITTEES).keys
      = [period, period + 1] := by
  rw [OrderedMap.keys_pruneToMax, OrderedMap.keys_set]
  rcases hkeys with hkeys | hkeys
  · rw [hkeys, List.mem_singleton] at hperiod
    subst hperiod
    rw [hkeys, if_neg (by simp)]
    rfl
  · rw [hkeys, List.mem_pair] at hperiod
    rcases hperiod with rfl | rfl
    · rw [hkeys, if_pos (by simp)]
      rfl
    · have hnew : p + 1 + 1 ∉ [p, p + 1] := by
        rw [List.mem_pair]
        omega
      rw [hkeys, if_neg hnew]
      rfl

theorem Chained.store (h : Chained bootstrap p stored this) {this' : Lightclient} {period : Nat}
    {signer committee : StoredSyncCommittee}
    (hsigner : this.syncCommitteeByPeriod.get period = some signer)
    (hnext : IsNextOf period signer committee)
    (hstore : this'.syncCommitteeByPeriod
      = (this.syncCommitteeByPeriod.set (period + 1) committee).pruneToMax
          MAX_STORED_SYNC_COMMITTEES) :
    p ≤ period ∧ Chained bootstrap period
      (fun period => (this'.syncCommitteeByPeriod.get period).or (stored period)) this' := by
  have hkeys := h.keys
  have hp := h.bootstrap_le
  have hperiod : period ∈ this.syncCommitteeByPeriod.keys := by
    by_contra hnone
    rw [← OrderedMap.get_eq_none_iff, hsigner] at hnone
    cases hnone
  have hkeys' : this'.syncCommitteeByPeriod.keys = [period, period + 1] := by
    rw [hstore]
    exact keys_pruneToMax_set hkeys hperiod
  have hle : ∀ key ∈ this.syncCommitteeByPeriod.keys, p ≤ key ∧ key ≤ p + 1 := by
    intro key hkey
    rcases hkeys with hkeys | hkeys
    · rw [hkeys, List.mem_singleton] at hkey
      omega
    · rw [hkeys, List.mem_pair] at hkey
      omega
  have hpperiod := hle period hperiod
  have hget : ∀ q, (this'.syncCommitteeByPeriod.get q).or (stored q)
      = if q = period + 1 then some committee else stored q := by
    intro q
    split_ifs with hq
    · have hmem : period + 1 ∈ this'.syncCommitteeByPeriod.keys := by simp [hkeys']
      rw [hq]
      cases hfound : this'.syncCommitteeByPeriod.get (period + 1) with
      | none =>
        rw [OrderedMap.get_eq_none_iff] at hfound
        exact absurd hmem hfound
      | some found =>
        rw [hstore] at hfound
        have hset := OrderedMap.get_of_get_pruneToMax hfound
        rw [OrderedMap.get_set_self] at hset
        exact hset.symm
    · cases hfound : this'.syncCommitteeByPeriod.get q with
      | none => rfl
      | some found =>
        rw [hstore] at hfound
        have hset := OrderedMap.get_of_get_pruneToMax hfound
        rw [OrderedMap.get_set_of_ne hq] at hset
        exact (h.get q found hset).symm
  refine ⟨hpperiod.1, by omega, .inr hkeys', ?_, ?_, ?_⟩
  · intro q found hfound
    rw [hfound]
    rfl
  · intro q habove
    rw [hget, if_neg]
    · apply h.above
      intro key hkey
      have := hle key hkey
      have := habove (period + 1) (by simp [hkeys'])
      omega
    · rintro rfl
      have := habove (period + 1) (by simp [hkeys'])
      omega
  · intro q found hq hfound
    rw [hget] at hfound
    rw [hget]
    split_ifs at hfound with heq
    · obtain rfl : q = period := by omega
      rw [if_neg (by omega)]
      cases hfound
      exact ⟨signer, h.get q signer hsigner, hnext⟩
    · have hne : q ≠ period + 1 := by
        rintro rfl
        have hnone := h.above (period + 1 + 1) (by
          intro key hkey
          have := hle key hkey
          omega)
        rw [hnone] at hfound
        cases hfound
      rw [if_neg hne]
      exact h.next q found hq hfound

/-- One step. -/
theorem Chained.step (h : Chained bootstrap p stored this) (event : LightclientEvent) :
    ∃ p', p ≤ p' ∧ Chained bootstrap p'
      (fun period => ((this.step event).syncCommitteeByPeriod.get period).or (stored period))
      (this.step event) := by
  rcases step_cases this event with hsame | ⟨period, signer, committee, hsigner, hnext, hstore⟩
  · have hstored : (fun period => ((this.step event).syncCommitteeByPeriod.get period).or
        (stored period)) = stored := by
      funext period
      rw [hsame]
      cases hget : this.syncCommitteeByPeriod.get period with
      | none => rfl
      | some committee => exact (h.get period committee hget).symm
    rw [hstored]
    refine ⟨p, le_refl p, h.bootstrap_le, ?_, ?_, ?_, h.next⟩
    · rw [hsame]
      exact h.keys
    · rw [hsame]
      exact h.get
    · rw [hsame]
      exact h.above
  · exact ⟨period, h.store hsigner hnext hstore⟩

theorem Chained.run (h : Chained bootstrap p stored this) (events : List LightclientEvent) :
    ∃ p', p ≤ p' ∧ Chained bootstrap p' (this.lastCommittees stored events) (this.run events) := by
  induction events generalizing this p stored with
  | nil => exact ⟨p, le_refl p, h⟩
  | cons event events ih =>
    obtain ⟨p₁, hp₁, h₁⟩ := h.step event
    obtain ⟨p₂, hp₂, h₂⟩ := ih h₁
    exact ⟨p₂, hp₁.trans hp₂, h₂⟩

theorem chained_new {snapshot : LightclientSnapshot} (hnew : new snapshot = .ok this) :
    Chained (computeSyncPeriodAtSlot snapshot.header.slot)
      (computeSyncPeriodAtSlot snapshot.header.slot) this.syncCommitteeByPeriod.get this := by
  unfold new at hnew
  obtain ⟨committee, _, hnew⟩ := eq_ok_of_bind hnew
  obtain rfl := Except.ok.inj hnew
  refine ⟨le_refl _, .inl rfl, fun _ _ h => h, ?_, ?_⟩
  · intro period habove
    have hlt := habove _ List.mem_cons_self
    exact OrderedMap.get_set_of_ne hlt.ne'
  · intro period found hle hfound
    have hne : period + 1 ≠ computeSyncPeriodAtSlot snapshot.header.slot := by omega
    rw [OrderedMap.get_set_of_ne hne] at hfound
    cases hfound

/-- In every run the periods are one or two, which never go back, and every committee after the
first is the next one of the committee last stored for the period before. -/
theorem committees_chained {snapshot : LightclientSnapshot} (hnew : new snapshot = .ok this)
    (events : List LightclientEvent) :
    (∃ p, computeSyncPeriodAtSlot snapshot.header.slot ≤ p ∧
      ((this.run events).syncCommitteeByPeriod.keys = [p] ∨
        (this.run events).syncCommitteeByPeriod.keys = [p, p + 1]) ∧
      ∀ before, before <+: events →
        ∀ q ∈ (this.run before).syncCommitteeByPeriod.keys.head?, q ≤ p) ∧
    ∀ period committee, (this.run events).syncCommitteeByPeriod.get (period + 1) = some committee →
      computeSyncPeriodAtSlot snapshot.header.slot < period + 1 →
      ∃ signer, this.lastCommittees this.syncCommitteeByPeriod.get events period = some signer ∧
        (∀ other, (this.run events).syncCommitteeByPeriod.get period = some other →
          other = signer) ∧
        IsNextOf period signer committee := by
  obtain ⟨p, _, hchained⟩ := (chained_new hnew).run events
  constructor
  · refine ⟨p, hchained.bootstrap_le, hchained.keys, ?_⟩
    rintro before ⟨after, rfl⟩ q hq
    obtain ⟨p₁, _, hbefore⟩ := (chained_new hnew).run before
    obtain ⟨p₂, hle, hafter⟩ := hbefore.run after
    have hrun : this.run (before ++ after) = (this.run before).run after := List.foldl_append
    rw [hrun] at hchained
    rw [hbefore.head?_keys] at hq
    have hq₁ : p₁ = q := Option.some.inj hq
    have hp₂ : p = p₂ := by
      have hhead := hchained.head?_keys.symm.trans hafter.head?_keys
      exact Option.some.inj hhead
    omega
  · intro period committee hget hlt
    obtain ⟨signer, hsigner, hnext⟩ := hchained.next period committee (by omega)
      (hchained.get (period + 1) committee hget)
    refine ⟨signer, hsigner, ?_, hnext⟩
    intro other hother
    rw [hchained.get period other hother] at hsigner
    exact Option.some.inj hsigner

end Lightclient

end Main

attribute [local instance] minimal

/-- Signatures that are the message. -/
local instance plainCrypto : LightclientCrypto where
  PublicKey := BLSPubkey
  fromBytes := .ok
  isValidBlsAggregate _ message signature := .ok (signature = message.setWidth 768)
  hash left right := left * 31 + right
  headerRoot header := BitVec.ofNat 256 (header.slot * 31 + header.proposerIndex)
  committeeRoot committee := committee.aggregatePubkey.setWidth 256
  signingRoot objectRoot slot := objectRoot + BitVec.ofNat 256 slot

/-- A snapshot in period 1. -/
def plainSnapshot : LightclientSnapshot where
  header := ⟨64, 0, 0, 0, 0⟩
  currentSyncCommittee := { pubkeys := [1, 2], aggregatePubkey := 3 }

/-- An update for the same period with a proof of zeros. -/
def plainUpdate : LightClientUpdate where
  attestedHeader :=
    { slot := 70, proposerIndex := 4, parentRoot := 0, bodyRoot := 0
      stateRoot := (List.finRange NEXT_SYNC_COMMITTEE_DEPTH).foldl (fun value i =>
        if NEXT_SYNC_COMMITTEE_INDEX / 2 ^ i.val % 2 ≠ 0 then hash 0 value else hash value 0) 6 }
  nextSyncCommittee := { pubkeys := [4, 5], aggregatePubkey := 6 }
  nextSyncCommitteeBranch := Vector.replicate _ 0
  finalizedHeader := ⟨0, 0, 0, 0, 0⟩
  finalityBranch := Vector.replicate _ 0
  syncAggregate :=
    { syncCommitteeBits := Vector.ofFn fun i => i.val = 0
      syncCommitteeSignature := BitVec.ofNat 768 (70 * 31 + 4 + 70) }
  forkVersion := 1

/-- The committee of period 2 is the next one of the committee of the snapshot. -/
theorem committees_chained_plainUpdate :
    ∃ this, Lightclient.new plainSnapshot = .ok this ∧
      ∃ signer committee,
        (this.run [.syncCommitteeUpdate plainUpdate 71]).syncCommitteeByPeriod.get 2
          = some committee ∧
        this.lastCommittees this.syncCommitteeByPeriod.get [.syncCommitteeUpdate plainUpdate 71] 1
          = some signer ∧
        IsNextOf 1 signer committee := by
  obtain ⟨this, hnew⟩ : ∃ this, Lightclient.new plainSnapshot = .ok this := ⟨_, rfl⟩
  have hstored : ((Lightclient.new plainSnapshot).toOption.bind fun this =>
      (this.run [.syncCommitteeUpdate plainUpdate 71]).syncCommitteeByPeriod.get 2).isSome
        = true := by decide +kernel
  rw [hnew] at hstored
  obtain ⟨committee, hcommittee⟩ := Option.isSome_iff_exists.mp hstored
  obtain ⟨signer, hsigner, _, hnext⟩ :=
    (Lightclient.committees_chained hnew [.syncCommitteeUpdate plainUpdate 71]).2 1 committee
      hcommittee (by decide)
  exact ⟨this, hnew, signer, committee, hcommittee, hsigner, hnext⟩

end Lodestar.LightClient
