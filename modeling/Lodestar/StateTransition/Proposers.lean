import Lodestar.StateTransition.Seed

/-!
# Proposers

`computeProposerIndex` of `util/seed.ts` against the walk of the specification,
which has no end.
-/

namespace Lodestar.StateTransition

open Lodestar.Base

section

variable [Preset] (hash : Bytes → Bytes32)

abbrev EffectiveBalanceIncrements := List UInt8

def MAX_RANDOM_BYTE : Nat := 2 ^ 8 - 1

def randByte (seed : Bytes32) (i : Nat) : UInt8 :=
  (hash (seed.toList ++ intToBytes (i / 32) 8)).toList.getD (i % 32) 0

/-- The loop of `computeProposerIndex` from `i` on, with the turns that are left. -/
def computeProposerIndexFrom (effectiveBalanceIncrements : EffectiveBalanceIncrements)
    (indices : List Nat) (seed : Bytes32) : Nat → Nat → Except String Int
  | _, 0 => return -1
  | i, left + 1 => do
    let MAX_EFFECTIVE_BALANCE_INCREMENT : Rat :=
      (MAX_EFFECTIVE_BALANCE : Rat) / EFFECTIVE_BALANCE_INCREMENT
    let shuffledIndex ← computeShuffledIndex hash (i % indices.length) indices.length seed
    let candidateIndex := indices.getD shuffledIndex 0
    match effectiveBalanceIncrements[candidateIndex]? with
    | some effectiveBalanceIncrement =>
      if MAX_EFFECTIVE_BALANCE_INCREMENT * (randByte hash seed i).toNat ≤
          effectiveBalanceIncrement.toNat * MAX_RANDOM_BYTE then
        return candidateIndex
      else computeProposerIndexFrom effectiveBalanceIncrements indices seed (i + 1) left
    -- a comparison with `undefined` is false
    | none => computeProposerIndexFrom effectiveBalanceIncrements indices seed (i + 1) left

def computeProposerIndex (effectiveBalanceIncrements : EffectiveBalanceIncrements)
    (indices : List Nat) (seed : Bytes32) : Except String Int := do
  if ¬ indices.length > 0 then
    throw s!"Validator indices must not be empty: {indices.length} > 0"
  computeProposerIndexFrom hash effectiveBalanceIncrements indices seed 0 indices.length

/-! ## The specification -/

/-- The candidate of turn `i`. -/
def candidate (indices : List Nat) (seed : Bytes32) (i : Nat) : Nat :=
  indices.getD (shuffledIndex hash seed indices.length (i % indices.length)) 0

/-- A validator with `effective_balance` is taken at turn `i`. -/
def Accepted (effectiveBalanceIncrements : EffectiveBalanceIncrements) (indices : List Nat)
    (seed : Bytes32) (i : Nat) : Prop :=
  ∃ increment, effectiveBalanceIncrements[candidate hash indices seed i]? = some increment ∧
    MAX_EFFECTIVE_BALANCE * (randByte hash seed i).toNat ≤
      increment.toNat * EFFECTIVE_BALANCE_INCREMENT * MAX_RANDOM_BYTE

/-- What `compute_proposer_index` returns: the first candidate accepted. -/
def IsProposer (effectiveBalanceIncrements : EffectiveBalanceIncrements) (indices : List Nat)
    (seed : Bytes32) (proposer : Nat) : Prop :=
  indices ≠ [] ∧ ∃ i, Accepted hash effectiveBalanceIncrements indices seed i ∧
    (∀ earlier < i, ¬ Accepted hash effectiveBalanceIncrements indices seed earlier) ∧
    proposer = candidate hash indices seed i

instance (effectiveBalanceIncrements : EffectiveBalanceIncrements) (indices : List Nat)
    (seed : Bytes32) (i : Nat) :
    Decidable (Accepted hash effectiveBalanceIncrements indices seed i) :=
  match h : effectiveBalanceIncrements[candidate hash indices seed i]? with
  | some increment =>
    decidable_of_iff (MAX_EFFECTIVE_BALANCE * (randByte hash seed i).toNat ≤
      increment.toNat * EFFECTIVE_BALANCE_INCREMENT * MAX_RANDOM_BYTE)
      ⟨fun hle => ⟨increment, h, hle⟩, fun ⟨_, h', hle⟩ => by
        obtain rfl := Option.some.inj (h.symm.trans h')
        exact hle⟩
  | none => .isFalse fun ⟨_, h', _⟩ => by
      rw [h] at h'
      cases h'

/-! ## The loop -/

variable {hash} {effectiveBalanceIncrements : EffectiveBalanceIncrements} {indices : List Nat}
  {seed : Bytes32} {i : Nat}

theorem candidate_mem (hpos : 0 < indices.length) : candidate hash indices seed i ∈ indices := by
  have hlt : shuffledIndex hash seed indices.length (i % indices.length) < indices.length :=
    shuffledIndex_lt (Nat.mod_lt _ hpos)
  unfold candidate
  rw [List.getD_eq_getElem?_getD, List.getElem?_eq_getElem hlt, Option.getD_some]
  exact List.getElem_mem hlt

theorem le_increment_iff (byte increment : Nat) :
    ((MAX_EFFECTIVE_BALANCE : Rat) / EFFECTIVE_BALANCE_INCREMENT * byte ≤
      increment * MAX_RANDOM_BYTE) ↔
      MAX_EFFECTIVE_BALANCE * byte ≤ increment * EFFECTIVE_BALANCE_INCREMENT * MAX_RANDOM_BYTE := by
  have hpos : (0 : Rat) < EFFECTIVE_BALANCE_INCREMENT := by
    exact_mod_cast Preset.EFFECTIVE_BALANCE_INCREMENT_pos
  rw [div_mul_eq_mul_div, div_le_iff₀ hpos]
  constructor
  · intro h
    have h' : ((MAX_EFFECTIVE_BALANCE * byte : Nat) : Rat) ≤
        ((increment * EFFECTIVE_BALANCE_INCREMENT * MAX_RANDOM_BYTE : Nat) : Rat) := by
      push_cast
      linarith
    exact_mod_cast h'
  · intro h
    have h' : ((MAX_EFFECTIVE_BALANCE * byte : Nat) : Rat) ≤
        ((increment * EFFECTIVE_BALANCE_INCREMENT * MAX_RANDOM_BYTE : Nat) : Rat) := by
      exact_mod_cast h
    push_cast at h'
    linarith

theorem computeProposerIndexFrom_succ (hpos : 0 < indices.length) (hlength : indices.length ≤ 2 ^ 40)
    (left : Nat) :
    computeProposerIndexFrom hash effectiveBalanceIncrements indices seed i (left + 1) =
      if Accepted hash effectiveBalanceIncrements indices seed i then
        .ok (candidate hash indices seed i : Int)
      else computeProposerIndexFrom hash effectiveBalanceIncrements indices seed (i + 1) left := by
  have hindex : computeShuffledIndex hash (i % indices.length) indices.length seed = _ :=
    computeShuffledIndex_eq (Nat.mod_lt i hpos) hlength
  rw [computeProposerIndexFrom, hindex]
  show (match effectiveBalanceIncrements[candidate hash indices seed i]? with
    | some increment => if _ then _ else _
    | none => _) = _
  cases hbalance : effectiveBalanceIncrements[candidate hash indices seed i]? with
  | none =>
    have hnot : ¬ Accepted hash effectiveBalanceIncrements indices seed i := by
      rintro ⟨increment, hsome, -⟩
      rw [hbalance] at hsome
      cases hsome
    exact (if_neg hnot).symm
  | some increment =>
    have haccepted : Accepted hash effectiveBalanceIncrements indices seed i ↔
        MAX_EFFECTIVE_BALANCE * (randByte hash seed i).toNat ≤
          increment.toNat * EFFECTIVE_BALANCE_INCREMENT * MAX_RANDOM_BYTE := by
      unfold Accepted
      simp [hbalance]
    exact if_congr ((le_increment_iff _ _).trans haccepted.symm) rfl rfl

variable (hash effectiveBalanceIncrements indices seed) in
theorem computeProposerIndexFrom_spec (hpos : 0 < indices.length)
    (hlength : indices.length ≤ 2 ^ 40) (i left : Nat) :
    (∃ j, i ≤ j ∧ j < i + left ∧ Accepted hash effectiveBalanceIncrements indices seed j ∧
      (∀ earlier, i ≤ earlier → earlier < j →
        ¬ Accepted hash effectiveBalanceIncrements indices seed earlier) ∧
      computeProposerIndexFrom hash effectiveBalanceIncrements indices seed i left =
        .ok (candidate hash indices seed j : Int)) ∨
    ((∀ j, i ≤ j → j < i + left → ¬ Accepted hash effectiveBalanceIncrements indices seed j) ∧
      computeProposerIndexFrom hash effectiveBalanceIncrements indices seed i left = .ok (-1)) := by
  induction left generalizing i with
  | zero => exact .inr ⟨fun j hle hlt => by omega, rfl⟩
  | succ left ih =>
    rw [computeProposerIndexFrom_succ hpos hlength]
    by_cases haccepted : Accepted hash effectiveBalanceIncrements indices seed i
    · rw [if_pos haccepted]
      exact .inl ⟨i, le_rfl, by omega, haccepted, fun earlier hle hlt => by omega, rfl⟩
    · rw [if_neg haccepted]
      have hfrom : ∀ {j : Nat}, i ≤ j → i + 1 ≤ j ∨ j = i := fun h => by omega
      rcases ih (i + 1) with ⟨j, hle, hlt, haccepts, hearlier, hreturns⟩ | ⟨hnone, hreturns⟩
      · refine .inl ⟨j, by omega, by omega, haccepts, fun earlier hge hbefore => ?_, hreturns⟩
        rcases hfrom hge with hge | rfl
        · exact hearlier earlier hge hbefore
        · exact haccepted
      · refine .inr ⟨fun j hge hlt => ?_, hreturns⟩
        rcases hfrom hge with hge | rfl
        · exact hnone j hge (by omega)
        · exact haccepted

theorem computeProposerIndex_eq (hpos : 0 < indices.length) :
    computeProposerIndex hash effectiveBalanceIncrements indices seed =
      computeProposerIndexFrom hash effectiveBalanceIncrements indices seed 0 indices.length := by
  unfold computeProposerIndex
  exact if_neg (not_not.2 hpos)

theorem computeProposerIndex_error (hlength : ¬ indices.length ≤ 2 ^ 40) :
    ∃ message,
      computeProposerIndex hash effectiveBalanceIncrements indices seed = .error message := by
  have hpos : 0 < indices.length := by omega
  obtain ⟨left, hleft⟩ : ∃ left, indices.length = left + 1 := ⟨indices.length - 1, by omega⟩
  obtain ⟨message, hmessage⟩ : ∃ message,
      computeShuffledIndex hash (0 % indices.length) indices.length seed = .error message :=
    computeShuffledIndex_error fun h => hlength h.2
  refine ⟨message, ?_⟩
  rw [computeProposerIndex_eq hpos, hleft, computeProposerIndexFrom, hmessage]
  rfl

/-- The proposer of the specification is returned if and only if one of the first turns, as many as
there are validators, accepts its candidate. -/
theorem computeProposerIndex_iff (hash : Bytes → Bytes32)
    (effectiveBalanceIncrements : EffectiveBalanceIncrements) (indices : List Nat) (seed : Bytes32) :
    (∃ proposer : Nat, IsProposer hash effectiveBalanceIncrements indices seed proposer ∧
      computeProposerIndex hash effectiveBalanceIncrements indices seed = .ok (proposer : Int) ∧
      proposer ∈ indices) ↔
    indices.length ≤ 2 ^ 40 ∧
      ∃ i < indices.length, Accepted hash effectiveBalanceIncrements indices seed i := by
  constructor
  · rintro ⟨proposer, ⟨hne, -⟩, hreturns, -⟩
    have hpos : 0 < indices.length := List.length_pos_iff.2 hne
    have hlength : indices.length ≤ 2 ^ 40 := by
      by_contra hlength
      obtain ⟨message, hmessage⟩ := computeProposerIndex_error hlength
      rw [hmessage] at hreturns
      cases hreturns
    rw [computeProposerIndex_eq hpos] at hreturns
    rcases computeProposerIndexFrom_spec hash effectiveBalanceIncrements indices seed hpos
      hlength 0 indices.length with
      ⟨j, -, hlt, haccepted, -⟩ | ⟨-, hgivesUp⟩
    · exact ⟨hlength, j, by omega, haccepted⟩
    · rw [hgivesUp] at hreturns
      exact absurd (Except.ok.inj hreturns) (by omega)
  · rintro ⟨hlength, i, hi, haccepted⟩
    have hpos : 0 < indices.length := by omega
    rw [computeProposerIndex_eq hpos]
    rcases computeProposerIndexFrom_spec hash effectiveBalanceIncrements indices seed hpos
      hlength 0 indices.length with
      ⟨j, -, -, haccepts, hearlier, hreturns⟩ | ⟨hnone, -⟩
    · exact ⟨_, ⟨List.length_pos_iff.1 hpos, j, haccepts,
        fun earlier hlt => hearlier earlier (Nat.zero_le _) hlt, rfl⟩, hreturns, candidate_mem hpos⟩
    · exact absurd haccepted (hnone i (Nat.zero_le _) (by omega))

end

/-! ## One poor validator -/

local instance proposerPreset : Preset := minimal

def firstSeed : Bytes32 := Vector.replicate 32 0

theorem accepted_poor_iff (i : Nat) :
    Accepted sha256 [1] [0] firstSeed i ↔ (randByte sha256 firstSeed i).toNat ≤ 7 := by
  have hmem : candidate sha256 [0] firstSeed i ∈ [0] := candidate_mem (by decide)
  have hcandidate := List.mem_singleton.1 hmem
  unfold Accepted
  rw [hcandidate]
  show (∃ increment, some (1 : UInt8) = some increment ∧
    32000000000 * _ ≤ increment.toNat * 1000000000 * 255) ↔ _
  simp
  omega

theorem randByte_first : (∀ i < 17, ¬ (randByte sha256 firstSeed i).toNat ≤ 7) ∧
    (randByte sha256 firstSeed 17).toNat ≤ 7 := by decide +kernel

/-- The only validator has one increment, and the byte of turn 17 is the first that is low enough. -/
theorem poor_validator_not_proposed :
    IsProposer sha256 [1] [0] firstSeed 0 ∧
      computeProposerIndex sha256 [1] [0] firstSeed = .ok (-1) := by
  constructor
  · have hmem : candidate sha256 [0] firstSeed 17 ∈ [0] := candidate_mem (by decide)
    refine ⟨by decide, 17, (accepted_poor_iff 17).2 randByte_first.2, fun earlier hlt => ?_,
      (List.mem_singleton.1 hmem).symm⟩
    exact mt (accepted_poor_iff earlier).1 (randByte_first.1 earlier hlt)
  · rw [computeProposerIndex_eq (by decide)]
    rcases computeProposerIndexFrom_spec sha256 [1] [0] firstSeed (by decide) (by decide) 0 1 with
      ⟨j, -, hlt, haccepts, -⟩ | ⟨-, hgivesUp⟩
    · exact absurd ((accepted_poor_iff j).1 haccepts) (randByte_first.1 j (by omega))
    · exact hgivesUp

end Lodestar.StateTransition
