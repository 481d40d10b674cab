import Mathlib.Data.Finset.Card
import Mathlib.Data.Finset.Range
import Mathlib.Order.Interval.Finset.Nat

/-!
# First fit

Elements of a list are taken from left to right; one is taken if it is usable
and clashes with none taken before. `IsFirstFit` says it of the places taken,
which are determined by it, and `firstFit` takes them.
-/

namespace Lodestar.Base

variable {α : Type}

structure IsFirstFit (usable : α → Prop) (clash : α → α → Prop) (l : List α)
    (places : Finset Nat) : Prop where
  lt : ∀ j ∈ places, j < l.length
  mem_iff : ∀ {j : Nat} {a : α}, l[j]? = some a →
    (j ∈ places ↔ usable a ∧ ∀ i ∈ places, i < j → ∀ b, l[i]? = some b → ¬ clash b a)

section

variable {usable : α → Prop} {clash : α → α → Prop} {l : List α} {places places' : Finset Nat} {a : α}

/-- There is one first fit. -/
theorem IsFirstFit.unique (h : IsFirstFit usable clash l places)
    (h' : IsFirstFit usable clash l places') : places = places' := by
  have hmem : ∀ j, j ∈ places ↔ j ∈ places' := by
    intro j
    induction j using Nat.strong_induction_on with
    | _ j ih =>
      by_cases hj : j < l.length
      · have hget := List.getElem?_eq_getElem hj
        rw [h.mem_iff hget, h'.mem_iff hget]
        apply and_congr_right
        intro _
        constructor
        · intro hfit i hi hij
          exact hfit i ((ih i hij).mpr hi) hij
        · intro hfit i hi hij
          exact hfit i ((ih i hij).mp hi) hij
      · exact iff_of_false (fun hmem => hj (h.lt j hmem)) (fun hmem => hj (h'.lt j hmem))
  exact Finset.ext hmem

theorem IsFirstFit.nil : IsFirstFit usable clash [] ∅ where
  lt := by simp
  mem_iff := by simp

theorem IsFirstFit.skip (h : IsFirstFit usable clash l places)
    (hfit : ¬ (usable a ∧ ∀ i ∈ places, ∀ b, l[i]? = some b → ¬ clash b a)) :
    IsFirstFit usable clash (l ++ [a]) places where
  lt j hj := by
    rw [List.length_append]
    exact Nat.lt_add_right _ (h.lt j hj)
  mem_iff {j c} hc := by
    rcases Nat.lt_or_ge j l.length with hj | hj
    · rw [List.getElem?_append_left hj] at hc
      rw [h.mem_iff hc]
      apply and_congr_right
      intro _
      apply forall₃_congr
      intro i hi _
      rw [List.getElem?_append_left (h.lt i hi)]
    · have hout : j ∉ places := fun hmem => absurd (h.lt j hmem) (Nat.not_lt.mpr hj)
      rw [List.getElem?_append_right hj] at hc
      have hlast : j - l.length = 0 := by
        have := (List.getElem?_eq_some_iff.mp hc).1
        simpa using this
      obtain rfl : a = c := by simpa [hlast] using hc
      apply iff_of_false hout
      rintro ⟨husable, hfree⟩
      apply hfit
      refine ⟨husable, fun i hi b hb => ?_⟩
      apply hfree i hi (by have := h.lt i hi; omega) b
      rw [List.getElem?_append_left (h.lt i hi)]
      exact hb

theorem IsFirstFit.take (h : IsFirstFit usable clash l places)
    (hfit : usable a ∧ ∀ i ∈ places, ∀ b, l[i]? = some b → ¬ clash b a) :
    IsFirstFit usable clash (l ++ [a]) (insert l.length places) where
  lt j hj := by
    rw [List.length_append, List.length_singleton]
    rcases Finset.mem_insert.mp hj with rfl | hj
    · omega
    · have := h.lt j hj
      omega
  mem_iff {j c} hc := by
    have hold : ∀ i ∈ insert l.length places, i < l.length → i ∈ places := by
      intro i hi hlt
      exact (Finset.mem_insert.mp hi).resolve_left (Nat.ne_of_lt hlt)
    rcases Nat.lt_or_ge j l.length with hj | hj
    · rw [List.getElem?_append_left hj] at hc
      rw [Finset.mem_insert, or_iff_right (Nat.ne_of_lt hj), h.mem_iff hc]
      apply and_congr_right
      intro _
      constructor
      · intro hfree i hi hij b hb
        have hlt : i < l.length := hij.trans hj
        rw [List.getElem?_append_left hlt] at hb
        exact hfree i (hold i hi hlt) hij b hb
      · intro hfree i hi hij b hb
        apply hfree i (Finset.mem_insert_of_mem hi) hij b
        rw [List.getElem?_append_left (h.lt i hi)]
        exact hb
    · rw [List.getElem?_append_right hj] at hc
      have hlast : j - l.length = 0 := by
        have := (List.getElem?_eq_some_iff.mp hc).1
        simpa using this
      obtain rfl : a = c := by simpa [hlast] using hc
      obtain rfl : j = l.length := by omega
      apply iff_of_true (Finset.mem_insert_self _ _)
      refine ⟨hfit.1, fun i hi hij b hb => ?_⟩
      rw [List.getElem?_append_left hij] at hb
      exact hfit.2 i (hold i hi hij) b hb

end

/-! ## Taking them -/

variable (usable : α → Prop) (clash : α → α → Prop) [DecidablePred usable] [DecidableRel clash]

/-- The elements taken, after those of `taken`. -/
def firstFit : List α → List α → List α
  | taken, [] => taken
  | taken, a :: l =>
    if usable a ∧ ∀ b ∈ taken, ¬ clash b a then firstFit (taken ++ [a]) l else firstFit taken l

variable {usable clash}

theorem firstFit_spec (l rest : List α) {places : Finset Nat} {taken : List α}
    (h : IsFirstFit usable clash l places) (hcard : taken.length = places.card)
    (hmem : ∀ b, b ∈ taken ↔ ∃ i ∈ places, l[i]? = some b) :
    ∃ places', IsFirstFit usable clash (l ++ rest) places' ∧
      (firstFit usable clash taken rest).length = places'.card := by
  induction rest generalizing l places taken with
  | nil => exact ⟨places, by rwa [List.append_nil], hcard⟩
  | cons a rest ih =>
    have hiff : (usable a ∧ ∀ b ∈ taken, ¬ clash b a)
        ↔ usable a ∧ ∀ i ∈ places, ∀ b, l[i]? = some b → ¬ clash b a := by
      apply and_congr_right
      intro _
      constructor
      · intro hfree i hi b hb
        exact hfree b ((hmem b).mpr ⟨i, hi, hb⟩)
      · intro hfree b hb
        obtain ⟨i, hi, hb⟩ := (hmem b).mp hb
        exact hfree i hi b hb
    have hold : ∀ i ∈ places, ∀ x, (l ++ [a])[i]? = x ↔ l[i]? = x := by
      intro i hi x
      rw [List.getElem?_append_left (h.lt i hi)]
    have hassoc : l ++ a :: rest = (l ++ [a]) ++ rest := by simp
    rw [firstFit, hassoc]
    split_ifs with hfit
    · have hnew : l.length ∉ places := fun hmem => absurd (h.lt _ hmem) (Nat.lt_irrefl _)
      apply ih (l ++ [a]) (h.take (hiff.mp hfit))
      · rw [List.length_append, List.length_singleton, Finset.card_insert_of_notMem hnew, hcard]
      · intro b
        rw [List.mem_append, List.mem_singleton, hmem b]
        constructor
        · rintro (⟨i, hi, hb⟩ | rfl)
          · exact ⟨i, Finset.mem_insert_of_mem hi, (hold i hi _).mpr hb⟩
          · exact ⟨l.length, Finset.mem_insert_self _ _, by simp⟩
        · rintro ⟨i, hi, hb⟩
          rcases Finset.mem_insert.mp hi with rfl | hi
          · right
            simpa using hb.symm
          · exact .inl ⟨i, hi, (hold i hi _).mp hb⟩
    · apply ih (l ++ [a]) (h.skip fun hskip => hfit (hiff.mpr hskip)) hcard
      intro b
      rw [hmem b]
      apply exists_congr
      intro i
      apply and_congr_right
      intro hi
      exact (hold i hi _).symm

theorem forall_isFirstFit_card_le_iff (l : List α) (max : Nat) :
    (∀ places, IsFirstFit usable clash l places → places.card ≤ max) ↔
      (firstFit usable clash [] l).length ≤ max := by
  have hnil : IsFirstFit usable clash ([] : List α) ∅ := .nil
  obtain ⟨places, hfit, hcard⟩ := firstFit_spec [] l hnil (List.length_nil (α := α)) (by simp)
  rw [List.nil_append] at hfit
  constructor
  · intro h
    exact hcard ▸ h places hfit
  · intro h places' hfit'
    exact hfit.unique hfit' ▸ hcard ▸ h

theorem firstFit_induction {P : List α → Prop} {taken l : List α} (htaken : P taken)
    (hstep : ∀ taken a, P taken → a ∈ l → usable a → (∀ b ∈ taken, ¬ clash b a) → P (taken ++ [a])) :
    P (firstFit usable clash taken l) := by
  induction l generalizing taken with
  | nil => exact htaken
  | cons a l ih =>
    have hrest : ∀ taken b, P taken → b ∈ l → usable b → (∀ c ∈ taken, ¬ clash c b) →
        P (taken ++ [b]) :=
      fun taken b hP hb => hstep taken b hP (List.mem_cons_of_mem a hb)
    rw [firstFit]
    split_ifs with hfit
    · exact ih (hstep taken a htaken List.mem_cons_self hfit.1 hfit.2) hrest
    · exact ih htaken hrest

end Lodestar.Base
