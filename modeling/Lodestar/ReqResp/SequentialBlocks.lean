import Lodestar.ReqResp.BlocksByRange

/-!
# Blocks of a range, in sequence

`utils/assertSequentialBlocksInRange.ts`, the check on the response to a request
for a range. It looks at the ends and at neighbours: blocks between the requested
slots pass, and so do blocks of one slot when the step is zero.
-/

namespace Lodestar.ReqResp

/-- `BlocksByRangeErrorType`. -/
inductive BlocksByRangeError where
  | BAD_LENGTH (count length : Nat)
  | UNDER_START_SLOT (startSlot firstSlot : Nat)
  | OVER_MAX_SLOT (maxSlot : Int) (lastSlot : Nat)
  | BAD_SEQUENCE (step slotL slotR : Nat)
  deriving DecidableEq

/-- `step || 1`. -/
def BeaconBlocksByRangeRequest.stride (request : BeaconBlocksByRangeRequest) : Nat :=
  if request.step = 0 then 1 else request.step

/-- The loop over neighbours. -/
def assertNeighbours (step : Nat) : List Nat → Except BlocksByRangeError Unit
  | slotL :: slotR :: slots =>
    if slotL + step > slotR then .error (.BAD_SEQUENCE step slotL slotR)
    else assertNeighbours step (slotR :: slots)
  | _ => .ok ()

/-- Of the blocks, their slots are looked at. -/
def assertSequentialBlocksInRange (slots : List Nat) (request : BeaconBlocksByRangeRequest) :
    Except BlocksByRangeError Unit :=
  match slots with
  -- the checks below would throw
  | [] => .ok ()
  | firstSlot :: later =>
    let length := (firstSlot :: later).length
    if length > request.count then .error (.BAD_LENGTH request.count length)
    else
      let maxSlot : Int := request.startSlot + request.count * request.stride - 1
      let lastSlot := (firstSlot :: later).getLast (List.cons_ne_nil _ _)
      if firstSlot < request.startSlot then
        .error (.UNDER_START_SLOT request.startSlot firstSlot)
      else if (lastSlot : Int) > maxSlot then .error (.OVER_MAX_SLOT maxSlot lastSlot)
      else assertNeighbours request.step (firstSlot :: later)

/-! ## What passes -/

variable {slots : List Nat} {request : BeaconBlocksByRangeRequest}

/-- The comparisons that are made. -/
structure PassesChecks (slots : List Nat) (request : BeaconBlocksByRangeRequest) : Prop where
  length : slots.length ≤ request.count
  first : ∀ slot ∈ slots.head?, request.startSlot ≤ slot
  last : ∀ slot ∈ slots.getLast?, slot < request.startSlot + request.count * request.stride
  apart : slots.IsChain fun slotL slotR => slotL + request.step ≤ slotR

theorem assertNeighbours_eq_ok_iff {step : Nat} :
    assertNeighbours step slots = .ok () ↔
      slots.IsChain fun slotL slotR => slotL + step ≤ slotR := by
  induction slots with
  | nil => simp [assertNeighbours]
  | cons slotL slots ih =>
    cases slots with
    | nil => simp [assertNeighbours]
    | cons slotR slots =>
      rw [assertNeighbours, List.isChain_cons_cons]
      by_cases hstep : slotL + step ≤ slotR
      · rw [if_neg (by omega), ih]
        exact (and_iff_right hstep).symm
      · rw [if_pos (by omega)]
        simp [hstep]

theorem assertSequentialBlocksInRange_eq_ok_iff :
    assertSequentialBlocksInRange slots request = .ok () ↔ PassesChecks slots request := by
  cases slots with
  | nil => exact iff_of_true rfl ⟨Nat.zero_le _, by simp, by simp, .nil⟩
  | cons firstSlot later =>
    have hlast : (firstSlot :: later).getLast? =
        some ((firstSlot :: later).getLast (List.cons_ne_nil _ _)) :=
      List.getLast?_eq_some_getLast _
    unfold assertSequentialBlocksInRange
    dsimp only
    constructor
    · intro h
      split_ifs at h with hlength hfirst hmax
      refine ⟨by omega, ?_, ?_, assertNeighbours_eq_ok_iff.mp h⟩
      · rintro slot hslot
        obtain rfl := Option.some.inj hslot
        omega
      · intro slot hslot
        rw [hlast] at hslot
        obtain rfl := Option.some.inj hslot
        omega
    · intro h
      have hfirst := h.first firstSlot rfl
      have hmax := h.last _ hlast
      have hlength := h.length
      rw [if_neg (by omega), if_neg (by omega), if_neg (by omega)]
      exact assertNeighbours_eq_ok_iff.mpr h.apart

/-! ## What was asked for -/

/-- Requested slots, each one later than the one before. -/
structure IsRequestedSequence (slots : List Nat) (request : BeaconBlocksByRangeRequest) : Prop where
  increasing : slots.Pairwise (· < ·)
  requested : ∀ slot ∈ slots, ∃ k < request.count, slot = request.startSlot + k * request.stride

/-- Every slot is whole steps after the first one, and no two neighbours share one. -/
structure IsAligned (slots : List Nat) (request : BeaconBlocksByRangeRequest) : Prop where
  steps : ∀ slot ∈ slots, request.stride ∣ slot - request.startSlot
  apart : request.step = 0 → slots.IsChain (· ≠ ·)

theorem stride_pos (request : BeaconBlocksByRangeRequest) : 0 < request.stride := by
  unfold BeaconBlocksByRangeRequest.stride
  split <;> omega

theorem step_le_stride (request : BeaconBlocksByRangeRequest) : request.step ≤ request.stride := by
  unfold BeaconBlocksByRangeRequest.stride
  split <;> omega

theorem PassesChecks.mem_le (h : PassesChecks slots request) {slot : Nat} (hslot : slot ∈ slots) :
    request.startSlot ≤ slot ∧ slot < request.startSlot + request.count * request.stride := by
  have hle : slots.Pairwise (· ≤ ·) :=
    List.isChain_iff_pairwise.mp (h.apart.imp fun _ _ hstep => by omega)
  constructor
  · cases slots with
    | nil => exact absurd hslot List.not_mem_nil
    | cons firstSlot later =>
      have hfirst := h.first firstSlot rfl
      rcases List.mem_cons.mp hslot with rfl | hlater
      · exact hfirst
      · exact hfirst.trans (List.rel_of_pairwise_cons hle hlater)
  · rcases List.eq_nil_or_concat' slots with rfl | ⟨early, lastSlot, rfl⟩
    · exact absurd hslot List.not_mem_nil
    · have hlast := h.last lastSlot List.getLast?_concat
      rcases List.mem_append.mp hslot with hearly | hmem
      · have := (List.pairwise_append.mp hle).2.2 slot hearly lastSlot (List.mem_singleton_self _)
        omega
      · rwa [List.mem_singleton.mp hmem]

theorem PassesChecks.isRequestedSequence (h : PassesChecks slots request)
    (haligned : IsAligned slots request) : IsRequestedSequence slots request := by
  have hincreasing : slots.IsChain (· < ·) := by
    by_cases hstep : request.step = 0
    · have hapart := List.isChain_iff_getElem.mp h.apart
      have hne := List.isChain_iff_getElem.mp (haligned.apart hstep)
      refine List.isChain_iff_getElem.mpr fun i hi => lt_of_le_of_ne ?_ (hne i hi)
      have := hapart i hi
      omega
    · exact h.apart.imp fun l r hle => by omega
  refine ⟨List.isChain_iff_pairwise.mp hincreasing, fun slot hslot => ?_⟩
  obtain ⟨hfirst, hlast⟩ := h.mem_le hslot
  obtain ⟨k, hk⟩ := haligned.steps slot hslot
  have hslot : slot = request.startSlot + k * request.stride := by
    rw [mul_comm]
    omega
  refine ⟨k, ?_, hslot⟩
  by_contra hnot
  have := Nat.mul_le_mul_right request.stride (Nat.not_lt.mp hnot)
  omega

theorem IsRequestedSequence.passesChecks (h : IsRequestedSequence slots request) :
    PassesChecks slots request where
  length := by
    have hsub : slots ⊆ (List.range request.count).map (request.startSlot + · * request.stride) := by
      intro slot hslot
      obtain ⟨k, hk, rfl⟩ := h.requested slot hslot
      exact List.mem_map.mpr ⟨k, List.mem_range.mpr hk, rfl⟩
    have hnodup : slots.Nodup := h.increasing.imp fun hlt => hlt.ne
    have hlength := (List.subperm_of_subset hnodup hsub).length_le
    rwa [List.length_map, List.length_range] at hlength
  first slot hslot := by
    obtain ⟨k, -, rfl⟩ := h.requested slot (List.mem_of_mem_head? hslot)
    exact Nat.le_add_right _ _
  last slot hslot := by
    obtain ⟨k, hk, rfl⟩ := h.requested slot (List.mem_of_mem_getLast? hslot)
    exact Nat.add_lt_add_left (Nat.mul_lt_mul_of_pos_right hk (stride_pos request)) _
  apart := by
    refine (h.increasing.imp_of_mem fun {slotL slotR} hl hr hlt => ?_).isChain
    obtain ⟨j, -, rfl⟩ := h.requested slotL hl
    obtain ⟨k, -, rfl⟩ := h.requested slotR hr
    -- the later slot is a whole stride later
    have hjk : j < k := Nat.lt_of_mul_lt_mul_right (Nat.lt_of_add_lt_add_left hlt)
    have hstride := Nat.mul_le_mul_right request.stride hjk
    have hstep := step_le_stride request
    rw [Nat.succ_mul] at hstride
    omega

theorem IsRequestedSequence.isAligned (h : IsRequestedSequence slots request) :
    IsAligned slots request where
  steps slot hslot := by
    obtain ⟨k, -, rfl⟩ := h.requested slot hslot
    exact ⟨k, by rw [mul_comm]; omega⟩
  apart _ := h.increasing.isChain.imp fun _ _ hlt => hlt.ne

/-- The check accepts just the sequences of requested slots if and only if what passes its
comparisons is aligned. -/
theorem accepts_iff_isRequestedSequence (slots : List Nat) (request : BeaconBlocksByRangeRequest) :
    (assertSequentialBlocksInRange slots request = .ok () ↔ IsRequestedSequence slots request) ↔
      (PassesChecks slots request → IsAligned slots request) := by
  rw [assertSequentialBlocksInRange_eq_ok_iff]
  constructor
  · exact fun h hpasses => (h.mp hpasses).isAligned
  · exact fun h => ⟨fun hpasses => hpasses.isRequestedSequence (h hpasses), fun h => h.passesChecks⟩

/-- The slots `1` and `3` for a request of `0` and `2`. -/
theorem oddSlots_accepted :
    assertSequentialBlocksInRange [1, 3] ⟨0, 2, 2⟩ = .ok () ∧ ¬ IsRequestedSequence [1, 3] ⟨0, 2, 2⟩ := by
  refine ⟨by decide, fun h => ?_⟩
  obtain ⟨k, hk, heq⟩ := h.requested 1 (by decide)
  have hstride : (⟨0, 2, 2⟩ : BeaconBlocksByRangeRequest).stride = 2 := rfl
  dsimp only at heq
  rw [hstride] at heq
  omega

end Lodestar.ReqResp
