import Mathlib.Tactic

/-!
# Binary search

The last item of a sorted list whose number is not above a given one.
-/

namespace Lodestar.Base

inductive BinarySearchError where
  /-- The list is empty. -/
  | noValues
  | noValueMinValue (value minValue : Nat)
  deriving DecidableEq

namespace SearchLte

variable {α : Type} (items : List α) (getter : α → Nat) (value : Nat)

/-- The item at the index has a number up to `value`. -/
def lteAt (index : Nat) : Bool := items[index]?.all (getter · ≤ value)

/-- The loop on `min` and `max`, which comes to an end in less than `fuel` steps. -/
def loop : (fuel min max : Nat) → Nat
  | 0, min, _ => min
  | fuel + 1, min, max =>
    if min < max then
      let mid := (max + min + 1) / 2
      if lteAt items getter value mid then loop fuel mid max else loop fuel min (mid - 1)
    else min

variable {items getter value}

theorem loop_spec (hsorted : ∀ i j, i ≤ j → lteAt items getter value j = true → j < items.length →
      lteAt items getter value i = true) {fuel min max : Nat} (hfuel : max - min ≤ fuel)
    (hle : min ≤ max) (hmax : max < items.length) (hmin : lteAt items getter value min = true)
    (habove : ∀ i, max < i → i < items.length → lteAt items getter value i = false) :
    min ≤ loop items getter value fuel min max ∧ loop items getter value fuel min max ≤ max ∧
      lteAt items getter value (loop items getter value fuel min max) = true ∧
      ∀ i, loop items getter value fuel min max < i → i < items.length →
        lteAt items getter value i = false := by
  induction fuel generalizing min max with
  | zero =>
    obtain rfl : min = max := by omega
    exact ⟨le_refl _, le_refl _, hmin, habove⟩
  | succ fuel ih =>
    unfold loop
    dsimp only
    split_ifs with hlt hmid
    · obtain ⟨h₁, h₂, h₃⟩ := ih (by omega) (by omega) hmax hmid habove
      exact ⟨by omega, h₂, h₃⟩
    · have habove' : ∀ i, (max + min + 1) / 2 - 1 < i → i < items.length →
          lteAt items getter value i = false := by
        intro i hi hlen
        by_contra htrue
        rw [Bool.not_eq_false] at htrue
        exact hmid (hsorted _ i (by omega) htrue hlen)
      obtain ⟨h₁, h₂, h₃⟩ := ih (by omega) (by omega) (by omega) hmin habove'
      exact ⟨h₁, by omega, h₃⟩
    · obtain rfl : min = max := by omega
      exact ⟨le_refl _, le_refl _, hmin, habove⟩

end SearchLte

/-- The last item with a number up to `value`. -/
def binarySearchLte {α : Type} (items : List α) (value : Nat) (getter : α → Nat) :
    Except BinarySearchError α :=
  match items.head?, items.getLast? with
  | some first, some last =>
    if value ≥ getter last then .ok last
    else if value < getter first then .error (.noValueMinValue value (getter first))
    else
      let min := SearchLte.loop items getter value items.length 0 (items.length - 1)
      match items[min]? with
      | some item => .ok item
      | none => .ok first
  | _, _ => .error .noValues

variable {α : Type} {items : List α} {getter : α → Nat} {value : Nat} {item : α}

theorem mem_of_binarySearchLte (h : binarySearchLte items value getter = .ok item) :
    item ∈ items := by
  unfold binarySearchLte at h
  split at h
  · rename_i first last hfirst hlast
    dsimp only at h
    split_ifs at h
    · cases h
      exact List.mem_of_getLast? hlast
    · split at h
      · rename_i found hfound
        cases h
        exact List.mem_of_getElem? hfound
      · cases h
        exact List.mem_of_mem_head? hfirst
  · cases h

theorem binarySearchLte_eq_ok (hsorted : items.Pairwise fun a b => getter a < getter b)
    (hmem : item ∈ items) (hle : getter item ≤ value)
    (hgreatest : ∀ other ∈ items, getter other ≤ value → getter other ≤ getter item) :
    binarySearchLte items value getter = .ok item := by
  obtain ⟨k, hk, rfl⟩ := List.getElem_of_mem hmem
  have hmono : ∀ i j (hi : i < items.length) (hj : j < items.length), i < j →
      getter items[i] < getter items[j] := by
    intro i j hi hj hij
    exact List.pairwise_iff_getElem.mp hsorted i j hi hj hij
  have hlteAt : ∀ i (hi : i < items.length),
      SearchLte.lteAt items getter value i = true ↔ i ≤ k := by
    intro i hi
    rw [SearchLte.lteAt, List.getElem?_eq_getElem hi, Option.all_some, decide_eq_true_iff]
    constructor
    · intro hlte
      by_contra hlt
      exact absurd (hgreatest _ (List.getElem_mem hi) hlte)
        (Nat.not_le_of_lt (hmono k i hk hi (Nat.lt_of_not_le hlt)))
    · intro hik
      rcases Nat.lt_or_eq_of_le hik with hlt | rfl
      · exact (hmono i k hi hk hlt).le.trans hle
      · exact hle
  have hpos : 0 < items.length := Nat.zero_lt_of_lt hk
  unfold binarySearchLte
  rw [List.head?_eq_getElem?, List.getLast?_eq_getElem?, List.getElem?_eq_getElem hpos,
    List.getElem?_eq_getElem (Nat.sub_lt hpos one_pos)]
  dsimp only
  split_ifs with hlast hfirst
  · -- the last item is the greatest
    have hk' : items.length - 1 ≤ k := by
      rw [← hlteAt _ (Nat.sub_lt hpos one_pos), SearchLte.lteAt,
        List.getElem?_eq_getElem (Nat.sub_lt hpos one_pos)]
      simpa using hlast
    obtain rfl : k = items.length - 1 := by omega
    rfl
  · have hzero := (hlteAt 0 hpos).mpr (Nat.zero_le k)
    rw [SearchLte.lteAt, List.getElem?_eq_getElem hpos, Option.all_some, decide_eq_true_iff] at hzero
    omega
  · have hsorted' : ∀ i j, i ≤ j → SearchLte.lteAt items getter value j = true →
        j < items.length → SearchLte.lteAt items getter value i = true := by
      intro i j hij hlte hj
      rw [hlteAt j hj] at hlte
      exact (hlteAt i (by omega)).mpr (by omega)
    have habove : ∀ i, items.length - 1 < i → i < items.length →
        SearchLte.lteAt items getter value i = false := by
      intro i hi hlen
      omega
    obtain ⟨_, hmax, hlte, hrest⟩ := SearchLte.loop_spec hsorted'
      (show items.length - 1 - 0 ≤ items.length by omega) (Nat.zero_le _)
      (Nat.sub_lt hpos one_pos) ((hlteAt 0 hpos).mpr (Nat.zero_le k)) habove
    set index := SearchLte.loop items getter value items.length 0 (items.length - 1)
    have hindex : index < items.length := by omega
    have hle' : index ≤ k := (hlteAt index hindex).mp hlte
    have heq : index = k := by
      by_contra hne
      have hfalse := hrest k (by omega) hk
      rw [(hlteAt k hk).mpr (le_refl k)] at hfalse
      cases hfalse
    rw [heq, List.getElem?_eq_getElem hk]

end Lodestar.Base
