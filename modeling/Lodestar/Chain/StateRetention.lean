import Lodestar.Chain.ArchiveStates

/-!
# Which archived states stay

A deleted state comes after another one of its bucket of slots, which lies
inside one interval of epochs. So the first state of an interval stays, and the
last one. On mainnet two states that were put never share a bucket, so that all
of them stay.
-/

namespace Lodestar.Chain

open Lodestar.Base Lodestar.ForkChoice Lodestar.StateTransition

section Main

variable [Preset]

/-- The interval of epochs a slot lies in. -/
def interval (slot : Nat) : Nat := computeEpochAtSlot slot / PERSIST_STATE_EVERY_EPOCHS

/-- The slots of the states put so far, with those that the checkpoints add. -/
def storedSlots (stored : List Nat) : List CheckpointWithHex → List Nat
  | [] => stored
  | finalized :: checkpoints =>
    storedSlots (if isDue stored.getLast? finalized then
      stored ++ [computeStartSlotAtEpoch finalized.epoch] else stored) checkpoints

/-- The state of a checkpoint is at the first slot of its epoch. -/
def Caches (checkpointStateCache : CheckpointStates) (finalized : CheckpointWithHex) : Prop :=
  ∃ state, checkpointStateCache finalized = some state ∧
    state.slot = computeStartSlotAtEpoch finalized.epoch

/-- No slot of the list before it lies in its interval. -/
def IsFirst (slots : Nat → Prop) (slot : Nat) : Prop :=
  slots slot ∧ ∀ other, slots other → interval other = interval slot → slot ≤ other

/-! ## Slots and intervals -/

theorem interval_eq_of_bucket_eq {a b : Nat}
    (h : a / PERSIST_STATE_EVERY_EPOCHS = b / PERSIST_STATE_EVERY_EPOCHS) :
    interval a = interval b := by
  unfold interval computeEpochAtSlot
  rw [Nat.div_div_eq_div_mul, Nat.div_div_eq_div_mul, Nat.mul_comm, ← Nat.div_div_eq_div_mul,
    ← Nat.div_div_eq_div_mul, h]

theorem add_lt_startSlot_of_isDue {last : Nat} {finalized : CheckpointWithHex}
    (h : isDue (some last) finalized = true) :
    last + PERSIST_TEMP_STATE_EVERY_EPOCHS * SLOTS_PER_EPOCH
      < computeStartSlotAtEpoch finalized.epoch := by
  unfold isDue computeEpochAtSlot at h
  rw [decide_eq_true_iff, Option.getD_some] at h
  have hpos := Preset.SLOTS_PER_EPOCH_pos
  have hlast : last < (last / SLOTS_PER_EPOCH + 1) * SLOTS_PER_EPOCH := by
    rw [Nat.add_mul, Nat.one_mul]
    exact Nat.lt_div_mul_add hpos
  calc last + PERSIST_TEMP_STATE_EVERY_EPOCHS * SLOTS_PER_EPOCH
      < (last / SLOTS_PER_EPOCH + 1) * SLOTS_PER_EPOCH
        + PERSIST_TEMP_STATE_EVERY_EPOCHS * SLOTS_PER_EPOCH := Nat.add_lt_add_right hlast _
    _ = (last / SLOTS_PER_EPOCH + 1 + PERSIST_TEMP_STATE_EVERY_EPOCHS) * SLOTS_PER_EPOCH :=
        (Nat.add_mul _ _ _).symm
    _ ≤ finalized.epoch * SLOTS_PER_EPOCH := Nat.mul_le_mul_right _ (by omega)

/-! ## The archive and the slots put -/

/-- What the archive keeps of the slots put. -/
structure Keeps (stored : List Nat) (stateArchive : StateArchive) : Prop where
  ascending : stored.Pairwise (· < ·)
  mem_stored : ∀ slot ∈ stateArchive, slot ∈ stored
  last : ∀ slot, stored.getLast? = some slot → slot ∈ stateArchive
  first : ∀ slot, IsFirst (· ∈ stored) slot → slot ∈ stateArchive

section

variable {stored : List Nat} {stateArchive : StateArchive} {finalized : CheckpointWithHex}
  {checkpointStateCache : CheckpointStates}

omit [Preset] in
theorem le_of_getLast? {slot last : Nat} (hascending : stored.Pairwise (· < ·))
    (hlast : stored.getLast? = some last) (hslot : slot ∈ stored) : slot ≤ last := by
  obtain ⟨init, rfl⟩ := List.getLast?_eq_some_iff.mp hlast
  rcases List.mem_append.mp hslot with h | h
  · exact ((List.pairwise_append.mp hascending).2.2 slot h last List.mem_cons_self).le
  · exact (List.mem_singleton.mp h).le

theorem Keeps.lastKey_eq (h : Keeps stored stateArchive) :
    stateArchive.lastKey = stored.getLast? := by
  cases hlast : stored.getLast? with
  | none =>
    cases hkey : stateArchive.lastKey with
    | none => rfl
    | some key =>
      have hmem := h.mem_stored key (KeyValues.lastKey_eq_some hkey).1
      rw [List.getLast?_eq_none_iff.mp hlast] at hmem
      exact absurd hmem List.not_mem_nil
  | some last =>
    cases hkey : stateArchive.lastKey with
    | none => exact absurd (h.last last hlast) (KeyValues.lastKey_eq_none hkey last)
    | some key =>
      obtain ⟨hmem, hgreatest⟩ := KeyValues.lastKey_eq_some hkey
      rw [le_antisymm (le_of_getLast? h.ascending hlast (h.mem_stored key hmem))
        (hgreatest last (h.last last hlast))]

theorem Keeps.lt_startSlot (h : Keeps stored stateArchive)
    (hdue : isDue stored.getLast? finalized = true) {slot : Nat} (hslot : slot ∈ stored) :
    slot + PERSIST_TEMP_STATE_EVERY_EPOCHS * SLOTS_PER_EPOCH
      < computeStartSlotAtEpoch finalized.epoch := by
  cases hlast : stored.getLast? with
  | none =>
    rw [List.getLast?_eq_none_iff.mp hlast] at hslot
    exact absurd hslot List.not_mem_nil
  | some last =>
    rw [hlast] at hdue
    have hle := le_of_getLast? h.ascending hlast hslot
    have hlt := add_lt_startSlot_of_isDue hdue
    omega

variable (stateArchive) in
theorem startSlot_mem_deleteStates {state : FinalizedState}
    (hslot : state.slot = computeStartSlotAtEpoch finalized.epoch) :
    computeStartSlotAtEpoch finalized.epoch
      ∈ deleteStates (stateArchive.insert state.slot state) finalized := by
  have hput : computeStartSlotAtEpoch finalized.epoch
      ∈ stateArchive.insert state.slot state := by
    rw [← hslot]
    exact Std.TreeMap.mem_insert_self
  rcases mem_deleteStates finalized hput with hmem | ⟨hlt, _⟩
  · exact hmem
  · have hle : finalized.epoch * 1 ≤ finalized.epoch * SLOTS_PER_EPOCH :=
      Nat.mul_le_mul_left _ Preset.SLOTS_PER_EPOCH_pos
    unfold computeStartSlotAtEpoch at hlt
    omega

theorem Keeps.insert (h : Keeps stored stateArchive) {state : FinalizedState}
    (hdue : isDue stored.getLast? finalized = true)
    (hslot : state.slot = computeStartSlotAtEpoch finalized.epoch) :
    Keeps (stored ++ [computeStartSlotAtEpoch finalized.epoch])
      (deleteStates (stateArchive.insert state.slot state) finalized) := by
  have hnew := startSlot_mem_deleteStates stateArchive hslot
  have hmem : ∀ slot ∈ stateArchive.insert state.slot state,
      slot ∈ stored ++ [computeStartSlotAtEpoch finalized.epoch] := by
    intro slot hmem
    rw [Std.TreeMap.mem_insert, Std.LawfulEqCmp.compare_eq_iff_eq] at hmem
    rcases hmem with rfl | hmem
    · rw [hslot]
      exact List.mem_append_right _ List.mem_cons_self
    · exact List.mem_append_left _ (h.mem_stored slot hmem)
  constructor
  · rw [List.pairwise_append]
    refine ⟨h.ascending, List.pairwise_singleton _ _, ?_⟩
    intro slot hmem new hnew
    rw [List.mem_singleton.mp hnew]
    have := h.lt_startSlot hdue hmem
    omega
  · exact fun slot hslot => hmem slot (mem_of_mem_deleteStates hslot)
  · intro slot hlast
    rw [List.getLast?_concat] at hlast
    rwa [← Option.some.inj hlast]
  · intro slot hfirst
    rcases List.mem_append.mp hfirst.1 with hold | hold
    · have hin : slot ∈ stateArchive := by
        apply h.first slot
        exact ⟨hold, fun other hother => hfirst.2 other (List.mem_append_left _ hother)⟩
      have hput : slot ∈ stateArchive.insert state.slot state :=
        Std.TreeMap.mem_insert.mpr (.inr hin)
      rcases mem_deleteStates finalized hput with hkept | ⟨_, earlier, hearlier,
        hlt, hsame⟩
      · exact hkept
      · have := hfirst.2 earlier (hmem earlier hearlier) (interval_eq_of_bucket_eq hsame)
        omega
    · rwa [List.mem_singleton.mp hold]

theorem Keeps.maybeArchiveState (h : Keeps stored stateArchive)
    (hcache : Caches checkpointStateCache finalized) :
    ∃ stateArchive', maybeArchiveState checkpointStateCache stateArchive finalized
        = .ok stateArchive' ∧ Keeps (storedSlots stored [finalized]) stateArchive' := by
  unfold Chain.maybeArchiveState storedSlots storedSlots
  rw [h.lastKey_eq]
  by_cases hdue : isDue stored.getLast? finalized = true
  · obtain ⟨state, hstate, hslot⟩ := hcache
    rw [if_pos hdue, if_pos hdue]
    refine ⟨deleteStates (stateArchive.insert state.slot state) finalized, ?_, h.insert hdue hslot⟩
    unfold archiveState
    rw [hstate]
    rfl
  · rw [if_neg hdue, if_neg hdue]
    exact ⟨stateArchive, rfl, h⟩

/-! ## Runs -/

theorem storedSlots_append (stored : List Nat) (before after : List CheckpointWithHex) :
    storedSlots stored (before ++ after) = storedSlots (storedSlots stored before) after := by
  induction before generalizing stored with
  | nil => rfl
  | cons first before ih => exact ih _

theorem prefix_storedSlots (stored : List Nat) (checkpoints : List CheckpointWithHex) :
    stored <+: storedSlots stored checkpoints := by
  induction checkpoints generalizing stored with
  | nil => exact List.prefix_refl _
  | cons first checkpoints ih =>
    refine List.IsPrefix.trans ?_ (ih _)
    split_ifs
    · exact List.prefix_append _ _
    · exact List.prefix_refl _

theorem Keeps.archiveStates (h : Keeps stored stateArchive) {checkpoints : List CheckpointWithHex}
    (hcache : ∀ finalized ∈ checkpoints, Caches checkpointStateCache finalized) :
    ∃ stateArchive', archiveStates checkpointStateCache stateArchive checkpoints
        = .ok stateArchive' ∧ Keeps (storedSlots stored checkpoints) stateArchive' := by
  induction checkpoints generalizing stored stateArchive with
  | nil => exact ⟨stateArchive, rfl, h⟩
  | cons first checkpoints ih =>
    obtain ⟨hfirst, hrest⟩ := List.forall_mem_cons.mp hcache
    obtain ⟨middle, hmiddle, hkeeps⟩ := h.maybeArchiveState hfirst
    obtain ⟨stateArchive', hrun, hkeeps'⟩ := ih hkeeps hrest
    refine ⟨stateArchive', ?_, hkeeps'⟩
    unfold Chain.archiveStates
    rw [List.foldlM_cons, hmiddle]
    exact hrun

theorem keeps_anchorArchive (anchor : Option FinalizedState) :
    Keeps (anchor.toList.map (·.slot)) (anchorArchive anchor) := by
  cases anchor with
  | none =>
    refine ⟨List.Pairwise.nil, fun _ h => absurd h Std.TreeMap.not_mem_emptyc, ?_, ?_⟩
    · rintro slot ⟨⟩
    · rintro slot ⟨hmem, _⟩
      cases hmem
  | some state =>
    have hmem : ∀ slot, slot ∈ anchorArchive (some state) ↔ slot ∈ [state.slot] := by
      intro slot
      show slot ∈ (∅ : StateArchive).insert state.slot state ↔ _
      rw [Std.TreeMap.mem_insert, Std.LawfulEqCmp.compare_eq_iff_eq, List.mem_singleton]
      simp [eq_comm]
    refine ⟨List.pairwise_singleton _ _, fun slot => (hmem slot).mp, ?_, ?_⟩
    · rintro slot ⟨⟩
      exact (hmem state.slot).mpr List.mem_cons_self
    · rintro slot ⟨hslot, _⟩
      exact (hmem slot).mpr hslot

theorem exists_isFirst_le {slot : Nat} (hslot : slot ∈ stored) :
    ∃ first ≤ slot, interval first = interval slot ∧ IsFirst (· ∈ stored) first := by
  induction slot using Nat.strong_induction_on with
  | h slot ih =>
    by_cases hfirst : IsFirst (· ∈ stored) slot
    · exact ⟨slot, le_refl _, rfl, hfirst⟩
    · unfold IsFirst at hfirst
      push Not at hfirst
      obtain ⟨other, hother, hsame, hlt⟩ := hfirst hslot
      obtain ⟨first, hle, hfirst, hisFirst⟩ := ih other hlt hother
      exact ⟨first, by omega, hfirst.trans hsame, hisFirst⟩

theorem Keeps.isFirst_stored (h : Keeps stored stateArchive) {slot : Nat}
    (hfirst : IsFirst (· ∈ stateArchive) slot) : IsFirst (· ∈ stored) slot := by
  refine ⟨h.mem_stored slot hfirst.1, ?_⟩
  intro other hother hsame
  obtain ⟨first, hle, hinterval, hisFirst⟩ := exists_isFirst_le hother
  have := hfirst.2 first (h.first first hisFirst) (hinterval.trans hsame)
  omega

theorem isFirst_storedSlots {checkpoints : List CheckpointWithHex}
    (hascending : (storedSlots stored checkpoints).Pairwise (· < ·)) {slot : Nat}
    (hfirst : IsFirst (· ∈ stored) slot) : IsFirst (· ∈ storedSlots stored checkpoints) slot := by
  obtain ⟨later, hlater⟩ := prefix_storedSlots stored checkpoints
  rw [← hlater] at hascending ⊢
  refine ⟨List.mem_append_left _ hfirst.1, ?_⟩
  intro other hother hsame
  rcases List.mem_append.mp hother with hold | hnew
  · exact hfirst.2 other hold hsame
  · exact ((List.pairwise_append.mp hascending).2.2 slot hfirst.1 other hnew).le

/-! ## Without deletions -/

/-- The slots lie in buckets of their own, and all of them are kept. -/
structure KeepsAll (stored : List Nat) (stateArchive : StateArchive) : Prop
    extends Keeps stored stateArchive where
  spaced : ∀ a ∈ stored, ∀ b ∈ stored, a < b → a + PERSIST_STATE_EVERY_EPOCHS ≤ b
  all : ∀ slot ∈ stored, slot ∈ stateArchive

theorem keepsAll_anchorArchive (anchor : Option FinalizedState) :
    KeepsAll (anchor.toList.map (·.slot)) (anchorArchive anchor) := by
  refine { keeps_anchorArchive anchor with spaced := ?_, all := ?_ }
  · cases anchor with
    | none => simp
    | some state => simp
  · intro slot hslot
    apply (keeps_anchorArchive anchor).last
    cases anchor with
    | none => cases hslot
    | some state =>
      rw [List.mem_singleton.mp hslot]
      rfl

omit [Preset] in
theorem mem_deleteStates_of_spaced
    (hspaced : ∀ a ∈ stateArchive, ∀ b ∈ stateArchive, a < b → a + PERSIST_STATE_EVERY_EPOCHS ≤ b)
    {slot : Nat} (hslot : slot ∈ stateArchive) : slot ∈ deleteStates stateArchive finalized := by
  rcases mem_deleteStates finalized hslot with hkept | ⟨_, earlier, hearlier, hlt,
    hsame⟩
  · exact hkept
  · have hdistance := hspaced earlier hearlier slot hslot hlt
    have hearlier' := Nat.div_add_mod earlier PERSIST_STATE_EVERY_EPOCHS
    have hslot' := Nat.div_add_mod slot PERSIST_STATE_EVERY_EPOCHS
    have hmod := Nat.mod_lt slot (show 0 < PERSIST_STATE_EVERY_EPOCHS by decide)
    rw [hsame] at hearlier'
    omega

theorem KeepsAll.insert (h : KeepsAll stored stateArchive) {state : FinalizedState}
    (hspacing : PERSIST_STATE_EVERY_EPOCHS ≤ PERSIST_TEMP_STATE_EVERY_EPOCHS * SLOTS_PER_EPOCH)
    (hdue : isDue stored.getLast? finalized = true)
    (hslot : state.slot = computeStartSlotAtEpoch finalized.epoch) :
    KeepsAll (stored ++ [computeStartSlotAtEpoch finalized.epoch])
      (deleteStates (stateArchive.insert state.slot state) finalized) := by
  have hspaced : ∀ a ∈ stored ++ [computeStartSlotAtEpoch finalized.epoch],
      ∀ b ∈ stored ++ [computeStartSlotAtEpoch finalized.epoch],
        a < b → a + PERSIST_STATE_EVERY_EPOCHS ≤ b := by
    intro a ha b hb hlt
    rcases List.mem_append.mp ha with ha | ha
    · rcases List.mem_append.mp hb with hb | hb
      · exact h.spaced a ha b hb hlt
      · rw [List.mem_singleton.mp hb]
        exact (Nat.add_le_add_left hspacing a).trans (h.lt_startSlot hdue ha).le
    · rcases List.mem_append.mp hb with hb | hb
      · have := h.lt_startSlot hdue hb
        rw [List.mem_singleton.mp ha] at hlt
        omega
      · rw [List.mem_singleton.mp ha, List.mem_singleton.mp hb] at hlt
        omega
  have hmem : ∀ slot, slot ∈ stateArchive.insert state.slot state ↔
      slot ∈ stored ++ [computeStartSlotAtEpoch finalized.epoch] := by
    intro slot
    rw [Std.TreeMap.mem_insert, Std.LawfulEqCmp.compare_eq_iff_eq, List.mem_append,
      List.mem_singleton, hslot, eq_comm, or_comm]
    exact or_congr_left ⟨h.mem_stored slot, h.all slot⟩
  refine { h.toKeeps.insert hdue hslot with spaced := hspaced, all := ?_ }
  intro slot hstored
  apply mem_deleteStates_of_spaced
  · intro a ha b hb
    exact hspaced a ((hmem a).mp ha) b ((hmem b).mp hb)
  · exact (hmem slot).mpr hstored

theorem KeepsAll.archiveStates (h : KeepsAll stored stateArchive)
    (hspacing : PERSIST_STATE_EVERY_EPOCHS ≤ PERSIST_TEMP_STATE_EVERY_EPOCHS * SLOTS_PER_EPOCH)
    {checkpoints : List CheckpointWithHex} {stateArchive' : StateArchive}
    (hcache : ∀ finalized ∈ checkpoints, Caches checkpointStateCache finalized)
    (hrun : archiveStates checkpointStateCache stateArchive checkpoints = .ok stateArchive') :
    KeepsAll (storedSlots stored checkpoints) stateArchive' := by
  induction checkpoints generalizing stored stateArchive with
  | nil =>
    cases hrun
    exact h
  | cons finalized checkpoints ih =>
    obtain ⟨hfirst, hrest⟩ := List.forall_mem_cons.mp hcache
    unfold Chain.archiveStates at hrun
    rw [List.foldlM_cons] at hrun
    obtain ⟨middle, hmiddle, hrun⟩ := eq_ok_of_bind hrun
    refine ih ?_ hrest hrun
    unfold Chain.maybeArchiveState at hmiddle
    rw [h.lastKey_eq] at hmiddle
    by_cases hdue : isDue stored.getLast? finalized = true
    · rw [if_pos hdue] at hmiddle ⊢
      obtain ⟨state, hstate, hslot⟩ := hfirst
      unfold archiveState at hmiddle
      rw [hstate] at hmiddle
      cases hmiddle
      exact h.insert hspacing hdue hslot
    · rw [if_neg hdue] at hmiddle ⊢
      cases hmiddle
      exact h

end

/-! ## Retention -/

/-- The archive after the last call of a run. -/
structure Retained (checkpointStateCache : CheckpointStates) (initial : StateArchive)
    (checkpoints : List CheckpointWithHex) (finalized : CheckpointWithHex)
    (stateArchive : StateArchive) : Prop where
  /-- Before the current and the previous interval there is one state for each at most. -/
  oneEach : ∀ a ∈ stateArchive, ∀ b ∈ stateArchive, interval a = interval b →
    interval a + 1 < finalized.epoch / PERSIST_STATE_EVERY_EPOCHS → a = b
  /-- What was the first state of its interval after some calls is still there. -/
  firstKept : ∀ before after earlier, checkpoints ++ [finalized] = before ++ after →
    archiveStates checkpointStateCache initial before = .ok earlier →
      ∀ slot, IsFirst (· ∈ earlier) slot → slot ∈ stateArchive
  /-- What the last call has put is there. -/
  lastKept : ∀ earlier, archiveStates checkpointStateCache initial checkpoints = .ok earlier →
    isDue earlier.lastKey finalized = true →
      computeStartSlotAtEpoch finalized.epoch ∈ stateArchive

/-- Two states that were put lie in one interval only if it is the current or the previous one. -/
def SpreadOut (stored : List Nat) (finalized : CheckpointWithHex) : Prop :=
  ∀ a ∈ stored, ∀ b ∈ stored, a ≠ b → interval a = interval b →
    finalized.epoch / PERSIST_STATE_EVERY_EPOCHS ≤ interval a + 1

/-- In every run whose states are spread out they are retained as they should be. The converse
holds where states that are put after each other are never in one bucket of slots. -/
theorem retained_of_spreadOut {checkpointStateCache : CheckpointStates}
    {anchor : Option FinalizedState} {checkpoints : List CheckpointWithHex}
    {finalized : CheckpointWithHex} {stateArchive : StateArchive}
    (hcache : ∀ checkpoint ∈ checkpoints ++ [finalized], Caches checkpointStateCache checkpoint)
    (hrun : archiveStates checkpointStateCache (anchorArchive anchor) (checkpoints ++ [finalized])
      = .ok stateArchive) :
    (SpreadOut (storedSlots (anchor.toList.map (·.slot)) (checkpoints ++ [finalized])) finalized →
      Retained checkpointStateCache (anchorArchive anchor) checkpoints finalized stateArchive) ∧
    (PERSIST_STATE_EVERY_EPOCHS ≤ PERSIST_TEMP_STATE_EVERY_EPOCHS * SLOTS_PER_EPOCH →
      Retained checkpointStateCache (anchorArchive anchor) checkpoints finalized stateArchive →
      SpreadOut (storedSlots (anchor.toList.map (·.slot)) (checkpoints ++ [finalized]))
        finalized) := by
  have hanchor := keeps_anchorArchive anchor
  have hkeeps : Keeps (storedSlots (anchor.toList.map (·.slot)) (checkpoints ++ [finalized]))
      stateArchive := by
    obtain ⟨stateArchive', hrun', hkeeps⟩ := hanchor.archiveStates hcache
    rw [hrun] at hrun'
    rwa [Except.ok.inj hrun']
  constructor
  · intro hspread
    constructor
    · intro a ha b hb hsame hold
      by_contra hne
      have := hspread a (hkeeps.mem_stored a ha) b (hkeeps.mem_stored b hb) hne hsame
      omega
    · intro before after earlier hsplit hearlier slot hfirst
      rw [hsplit] at hcache hkeeps
      obtain ⟨earlier', hearlier', hkeeps'⟩ := hanchor.archiveStates
        fun checkpoint hmem => hcache checkpoint (List.mem_append_left after hmem)
      rw [hearlier] at hearlier'
      obtain rfl := Except.ok.inj hearlier'
      rw [storedSlots_append] at hkeeps
      exact hkeeps.first slot
        (isFirst_storedSlots hkeeps.ascending (hkeeps'.isFirst_stored hfirst))
    · intro earlier hearlier hdue
      obtain ⟨earlier', hearlier', hkeeps'⟩ := hanchor.archiveStates
        fun checkpoint hmem => hcache checkpoint (List.mem_append_left [finalized] hmem)
      rw [hearlier] at hearlier'
      obtain rfl := Except.ok.inj hearlier'
      rw [storedSlots_append] at hkeeps
      apply hkeeps.last
      rw [hkeeps'.lastKey_eq] at hdue
      unfold storedSlots storedSlots
      rw [if_pos hdue, List.getLast?_concat]
  · intro hspacing hretained a ha b hb hne hsame
    have hall := (keepsAll_anchorArchive anchor).archiveStates hspacing hcache hrun
    by_contra hold
    exact hne (hretained.oneEach a (hall.all a ha) b (hall.all b hb) hsame (by omega))

end Main

attribute [local instance] mainnet

/-- The state of every checkpoint. -/
def allStates : CheckpointStates := fun finalized =>
  some ⟨computeStartSlotAtEpoch finalized.epoch, finalized.rootHex⟩

theorem caches_allStates (finalized : CheckpointWithHex) : Caches allStates finalized :=
  ⟨_, rfl, rfl⟩

/-- One state in each of two intervals. -/
theorem retained_two_intervals :
    ∃ stateArchive, archiveStates allStates (anchorArchive none) ([⟨33, 1⟩] ++ [⟨1100, 2⟩])
        = .ok stateArchive ∧
      Retained allStates (anchorArchive none) [⟨33, 1⟩] ⟨1100, 2⟩ stateArchive :=
  ⟨_, rfl, (retained_of_spreadOut (fun checkpoint _ => caches_allStates checkpoint) rfl).1
    (by unfold SpreadOut; decide +kernel)⟩

/-- Two states of the first interval are there in the third one. -/
theorem not_retained_of_two_states :
    ¬ ∀ (checkpointStateCache : CheckpointStates) (anchor : Option FinalizedState)
      (checkpoints : List CheckpointWithHex) (finalized : CheckpointWithHex)
      (stateArchive : StateArchive),
      ((checkpoints ++ [finalized]).Pairwise fun a b => a.epoch < b.epoch) →
      (∀ checkpoint ∈ checkpoints ++ [finalized], Caches checkpointStateCache checkpoint) →
      archiveStates checkpointStateCache (anchorArchive anchor) (checkpoints ++ [finalized])
        = .ok stateArchive →
      Retained checkpointStateCache (anchorArchive anchor) checkpoints finalized stateArchive := by
  intro h
  obtain ⟨stateArchive, hrun⟩ : ∃ stateArchive, archiveStates allStates (anchorArchive none)
      ([⟨33, 1⟩, ⟨66, 2⟩] ++ [⟨2048, 3⟩]) = .ok stateArchive := ⟨_, rfl⟩
  have hretained := h allStates none _ _ stateArchive (by decide)
    (fun checkpoint _ => caches_allStates checkpoint) hrun
  have hkeys : (archiveStates allStates (anchorArchive none)
      ([⟨33, 1⟩, ⟨66, 2⟩] ++ [⟨2048, 3⟩])).toOption.map (fun stateArchive =>
        (decide (1056 ∈ stateArchive), decide (2112 ∈ stateArchive))) = some (true, true) := by
    decide +kernel
  rw [hrun] at hkeys
  obtain ⟨hfirst, hsecond⟩ := Prod.mk.inj (Option.some.inj hkeys)
  have := hretained.oneEach 1056 (of_decide_eq_true hfirst) 2112 (of_decide_eq_true hsecond)
    (by decide) (by decide)
  omega

end Lodestar.Chain
