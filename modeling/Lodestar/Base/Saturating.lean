import Lodestar.Base.ModifyAt
import Lodestar.Base.OrderedMap

/-!
# Updates that saturate at zero

`addSat` adds a delta to a natural number and stops at zero. A sequence of such
updates ends at the sum of its deltas exactly when no number that was used up is
refilled on balance (`foldl_addSat_eq_iff`). `accumulate` sums the deltas of
each index of a list.
-/

namespace Lodestar.Base

/-- Adds the delta, and stops at zero. -/
def addSat (n : Nat) (delta : Int) : Nat := (n + delta).toNat

theorem addSat_natCast (n delta : Nat) : addSat n delta = n + delta := by
  unfold addSat
  omega

theorem addSat_neg (n delta : Nat) : addSat n (-delta) = n - delta := by
  unfold addSat
  omega

theorem foldl_addSat_le_iff {m : Nat} {n : Nat} {deltas : List Int} :
    deltas.foldl addSat n ≤ m ↔ n + deltas.sum ≤ m ∧ ∀ last, last <:+ deltas → last.sum ≤ m := by
  induction deltas generalizing n with
  | nil =>
    simp only [List.foldl_nil, List.sum_nil, List.suffix_nil]
    constructor
    · intro hle
      refine ⟨by omega, ?_⟩
      rintro last rfl
      simp
    · intro h
      omega
  | cons delta deltas ih =>
    rw [List.foldl_cons, ih, List.sum_cons]
    unfold addSat
    constructor
    · rintro ⟨hsum, hlast⟩
      refine ⟨by omega, fun last hsuffix => ?_⟩
      rcases List.suffix_cons_iff.1 hsuffix with rfl | hsuffix
      · rw [List.sum_cons]
        omega
      · exact hlast last hsuffix
    · rintro ⟨hsum, hlast⟩
      have hrest := hlast deltas (List.suffix_cons delta deltas)
      refine ⟨by omega, fun last hsuffix => ?_⟩
      exact hlast last (hsuffix.trans (List.suffix_cons delta deltas))

/-- Whenever the updates so far use up more than there was, the rest does not refill it. -/
def NoRefill (n : Nat) (deltas : List Int) : Prop :=
  ∀ first last, deltas = first ++ last → n + first.sum < 0 → last.sum ≤ 0

theorem foldl_addSat_eq_iff {n : Nat} {deltas : List Int} :
    deltas.foldl addSat n = addSat n deltas.sum ↔ NoRefill n deltas := by
  have hge : addSat n deltas.sum ≤ deltas.foldl addSat n := by
    obtain ⟨hsum, -⟩ := foldl_addSat_le_iff.1 (le_refl (deltas.foldl addSat n))
    exact Int.toNat_le.2 hsum
  rw [← hge.ge_iff_eq', foldl_addSat_le_iff]
  unfold addSat
  constructor
  · rintro ⟨-, hlast⟩ first last rfl hlow
    have hle := hlast last (List.suffix_append first last)
    rw [List.sum_append] at hle
    omega
  · intro hrefill
    refine ⟨by omega, ?_⟩
    rintro last ⟨first, rfl⟩
    rw [List.sum_append]
    by_cases hlow : n + first.sum < 0
    · have hle := hrefill first last rfl hlow
      omega
    · omega

/-! ## Updates of a list -/

/-- The deltas of one index. -/
def deltasAt (updates : List (Nat × Int)) (i : Nat) : List Int :=
  (updates.filter (·.1 = i)).map Prod.snd

/-- One update after the other. -/
def applyDeltas (l : List Nat) (updates : List (Nat × Int)) : List Nat :=
  updates.foldl (fun l update => l.modify update.1 (addSat · update.2)) l

theorem getElem?_applyDeltas (l : List Nat) (updates : List (Nat × Int)) (i : Nat) :
    (applyDeltas l updates)[i]? = l[i]?.map ((deltasAt updates i).foldl addSat) := by
  induction updates generalizing l with
  | nil =>
    show l[i]? = l[i]?.map id
    rw [Option.map_id, id]
  | cons update updates ih =>
    show (applyDeltas (l.modify update.1 (addSat · update.2)) updates)[i]? = _
    rw [ih, getElem?_modify_eq]
    unfold deltasAt
    by_cases heq : update.1 = i
    · simp [heq, Function.comp_def]
    · simp [heq]

theorem applyDeltas_append (l : List Nat) (first last : List (Nat × Int)) :
    applyDeltas l (first ++ last) = applyDeltas (applyDeltas l first) last := List.foldl_append

theorem deltasAt_append (first last : List (Nat × Int)) (i : Nat) :
    deltasAt (first ++ last) i = deltasAt first i ++ deltasAt last i := by
  unfold deltasAt
  rw [List.filter_append, List.map_append]

/-- The sum of the deltas of each index, by index. -/
def accumulate (updates : List (Nat × Int)) : OrderedMap Nat Int :=
  updates.foldl (fun deltaByIndex update =>
    deltaByIndex.set update.1 (update.2 + (deltaByIndex.get update.1).getD 0)) .empty

theorem getD_get_accumulate (updates : List (Nat × Int)) (i : Nat) :
    ((accumulate updates).get i).getD 0 = (deltasAt updates i).sum := by
  have hfrom : ∀ m : OrderedMap Nat Int,
      ((updates.foldl (fun deltaByIndex update => deltaByIndex.set update.1
        (update.2 + (deltaByIndex.get update.1).getD 0)) m).get i).getD 0
        = (m.get i).getD 0 + (deltasAt updates i).sum := by
    unfold deltasAt
    induction updates with
    | nil => simp
    | cons update updates ih =>
      intro m
      rw [List.foldl_cons, ih, OrderedMap.get_set]
      by_cases heq : update.1 = i
      · subst heq
        simp
        ring
      · simp [heq, Ne.symm heq]
  rw [accumulate, hfrom, OrderedMap.get_empty]
  simp

end Lodestar.Base
