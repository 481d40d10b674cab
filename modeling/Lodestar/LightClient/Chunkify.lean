import Mathlib.Data.Int.Range
import Mathlib.Tactic

/-!
# Chunks of an inclusive range

`utils/chunkify.ts`: the periods that a light client asks for are split into
ranges that one request can hold.
-/

namespace Lodestar.LightClient

/-- `Math.ceil(a / b)`. -/
def ceilDiv (a b : Int) : Int := -(-a / b)

theorem le_ceilDiv_mul {a b : Int} (hb : 0 < b) : a ≤ ceilDiv a b * b := by
  have := Int.mul_ediv_add_emod (-a) b
  have := Int.emod_nonneg (-a) hb.ne'
  unfold ceilDiv
  rw [Int.neg_mul, Int.mul_comm]
  omega

/-- The loop, for `first` and `last` of `from` and `to`. It ends after a number of turns, or with the
chunk that reaches the end. -/
def chunksFrom (first last itemsPerChunk : Int) : Nat → Int → List (Int × Int)
  | 0, _ => []
  | turns + 1, i =>
    let chunkFrom := first + i * itemsPerChunk
    let chunkTo := min (first + (i + 1) * itemsPerChunk - 1) last
    (chunkFrom, chunkTo) ::
      if chunkTo ≥ last then [] else chunksFrom first last itemsPerChunk turns (i + 1)

def chunkifyInclusiveRange (first last itemsPerChunk : Int) : List (Int × Int) :=
  let itemsPerChunk := if itemsPerChunk < 1 then 1 else itemsPerChunk
  let totalItems := last - first + 1
  let chunkCount := max (ceilDiv totalItems itemsPerChunk) 1
  chunksFrom first last itemsPerChunk chunkCount.toNat 0

/-! ## The items of the chunks -/

/-- The items between inclusive bounds. -/
def items (chunk : Int × Int) : List Int := Int.range chunk.1 (chunk.2 + 1)

theorem items_append {a b c : Int} (hab : a ≤ b + 1) (hbc : b ≤ c) :
    items (a, b) ++ items (b + 1, c) = items (a, c) := by
  unfold items Int.range
  obtain ⟨m, hm⟩ : ∃ m : Nat, b + 1 - a = m := ⟨(b + 1 - a).toNat, by omega⟩
  obtain ⟨n, hn⟩ : ∃ n : Nat, c - b = n := ⟨(c - b).toNat, by omega⟩
  have hleft : (b + 1 - a).toNat = m := by omega
  have hright : (c + 1 - (b + 1)).toNat = n := by omega
  have hboth : (c + 1 - a).toNat = m + n := by omega
  simp only [hleft, hright, hboth, List.range_add, List.map_append, List.map_map]
  congr 1
  refine List.map_congr_left fun k _ => ?_
  simp only [Function.comp_apply]
  omega

/-- A chunk holds one item at least and no more than the limit. -/
def Fits (limit : Int) (chunk : Int × Int) : Prop :=
  chunk.1 ≤ chunk.2 ∧ chunk.2 - chunk.1 + 1 ≤ limit

theorem chunksFrom_spec {first last limit : Int} (hlimit : 1 ≤ limit) {turns : Nat} {i : Int}
    (hstart : first + i * limit ≤ last) (hturns : last < first + (i + turns) * limit) :
    (∀ chunk ∈ chunksFrom first last limit turns i, Fits limit chunk) ∧
      (chunksFrom first last limit turns i).flatMap items = items (first + i * limit, last) := by
  induction turns generalizing i with
  | zero =>
    rw [Nat.cast_zero, Int.add_zero] at hturns
    omega
  | succ turns ih =>
    have hnext : first + (i + 1) * limit = first + i * limit + limit := by ring
    rw [chunksFrom]
    by_cases hend : last ≤ first + (i + 1) * limit - 1
    · simp only [min_eq_right hend, ge_iff_le, le_refl, if_true, List.mem_singleton, forall_eq,
        List.flatMap_singleton, and_true]
      exact ⟨hstart, by omega⟩
    · have hmin : min (first + (i + 1) * limit - 1) last = first + (i + 1) * limit - 1 := by omega
      have hgo : ¬ first + (i + 1) * limit - 1 ≥ last := by omega
      simp only [hmin, if_neg hgo]
      have hrest : last < first + (i + 1 + turns) * limit := by
        rwa [Nat.cast_succ, add_comm (turns : Int) 1, ← add_assoc] at hturns
      obtain ⟨hfits, hitems⟩ := ih (i := i + 1) (by omega) hrest
      constructor
      · intro chunk hmem
        rcases List.mem_cons.mp hmem with rfl | hmem
        · exact ⟨by dsimp only; omega, by dsimp only; omega⟩
        · exact hfits chunk hmem
      · rw [List.flatMap_cons, hitems]
        have happend := items_append (a := first + i * limit) (b := first + (i + 1) * limit - 1)
          (c := last) (by omega) (by omega)
        rwa [Int.sub_add_cancel] at happend

/-- The chunks are no longer than the limit and hold the range, each item once and in order. -/
theorem chunkifyInclusiveRange_spec {first last itemsPerChunk : Int} (hrange : first ≤ last)
    (hlimit : 1 ≤ itemsPerChunk) :
    (∀ chunk ∈ chunkifyInclusiveRange first last itemsPerChunk, Fits itemsPerChunk chunk) ∧
      (chunkifyInclusiveRange first last itemsPerChunk).flatMap items = items (first, last) := by
  unfold chunkifyInclusiveRange
  have hceil := le_ceilDiv_mul (a := last - first + 1) (b := itemsPerChunk) (by omega)
  dsimp only
  rw [if_neg (by omega)]
  generalize ceilDiv (last - first + 1) itemsPerChunk = count at hceil ⊢
  have hcount : 0 < count := by
    by_contra hnot
    have := Int.mul_nonpos_of_nonpos_of_nonneg (Int.not_lt.mp hnot) (show 0 ≤ itemsPerChunk by omega)
    omega
  have hturns : ((max count 1).toNat : Int) = count := by omega
  have hspec := @chunksFrom_spec first last itemsPerChunk hlimit (max count 1).toNat 0 (by omega)
    (by rw [hturns, Int.zero_add]; omega)
  rwa [Int.zero_mul, Int.add_zero] at hspec

/-- Eight periods, three at a time. -/
theorem chunkifyInclusiveRange_spec_eight :
    (∀ chunk ∈ chunkifyInclusiveRange 5 12 3, Fits 3 chunk) ∧
      (chunkifyInclusiveRange 5 12 3).flatMap items = items (5, 12) :=
  chunkifyInclusiveRange_spec (by decide) (by decide)

example : chunkifyInclusiveRange 5 12 3 = [(5, 7), (8, 10), (11, 12)] := by decide

end Lodestar.LightClient
