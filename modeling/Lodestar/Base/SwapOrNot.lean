import Mathlib.Data.List.Nodup
import Mathlib.Tactic

/-!
# Swap-or-not shuffles

A round mirrors the positions below `n` around a pivot and swaps each pair or
not, as a bit for the higher one of the pair says. As a map on positions a
round is its own inverse (`Round.apply_apply`), so the rounds in reverse order
undo a walk through them (`walk_reverse`). On a list a round is made by
swapping each pair once (`Round.swapPairs_reindexes`), and a run of rounds
moves to each position what stood where the reversed walk leads
(`Reindexes.foldl`).
-/

namespace Lodestar.Base

/-! ## Lists read through a map of positions -/

section

variable {α : Type*} {l l' l'' : List α} {σ τ : Nat → Nat}

/-- At `p` stands what `l` has at `σ p`. -/
structure Reindexes (σ : Nat → Nat) (l l' : List α) : Prop where
  length_eq : l'.length = l.length
  lt : ∀ p < l.length, σ p < l.length
  getElem? : ∀ p < l.length, l'[p]? = l[σ p]?

theorem Reindexes.refl (l : List α) : Reindexes id l l := ⟨rfl, fun _ => id, fun _ _ => rfl⟩

theorem Reindexes.trans (h : Reindexes σ l l') (h' : Reindexes τ l' l'') :
    Reindexes (σ ∘ τ) l l'' where
  length_eq := h'.length_eq.trans h.length_eq
  lt p hp := h.lt _ (h.length_eq ▸ h'.lt p (h.length_eq ▸ hp))
  getElem? p hp := by
    have hp' : p < l'.length := h.length_eq ▸ hp
    rw [h'.getElem? p hp', h.getElem? _ (h.length_eq ▸ h'.lt p hp')]
    rfl

theorem Reindexes.congr (h : Reindexes σ l l') (heq : ∀ p < l.length, τ p = σ p) :
    Reindexes τ l l' where
  length_eq := h.length_eq
  lt p hp := heq p hp ▸ h.lt p hp
  getElem? p hp := by rw [heq p hp, h.getElem? p hp]

theorem Reindexes.eq_of_id (h : Reindexes σ l l') (heq : ∀ p < l.length, σ p = p) : l' = l := by
  refine List.ext_getElem? fun p => ?_
  rcases Nat.lt_or_ge p l.length with hp | hp
  · rw [h.getElem? p hp, heq p hp]
  · rw [List.getElem?_eq_none hp, List.getElem?_eq_none (h.length_eq ▸ hp)]

def swap (l : List α) (i j : Nat) : List α :=
  match l[i]?, l[j]? with
  | some a, some b => (l.set j a).set i b
  | _, _ => l

variable {i j : Nat}

theorem swap_eq (hi : i < l.length) (hj : j < l.length) : swap l i j = (l.set j l[i]).set i l[j] := by
  simp [swap, hi, hj]

theorem swap_perm (l : List α) (i j : Nat) : (swap l i j).Perm l := by
  unfold swap
  split
  next a b ha hb =>
    obtain ⟨hi, rfl⟩ := List.getElem?_eq_some_iff.1 ha
    obtain ⟨hj, rfl⟩ := List.getElem?_eq_some_iff.1 hb
    exact List.set_set_perm hj hi
  next => exact List.Perm.refl l

theorem swap_reindexes (hi : i < l.length) (hj : j < l.length) :
    Reindexes (fun p => if p = i then j else if p = j then i else p) l (swap l i j) where
  length_eq := (swap_perm l i j).length_eq
  lt p hp := by split_ifs <;> assumption
  getElem? p hp := by
    rw [swap_eq hi hj, List.getElem?_set, List.getElem?_set, List.length_set]
    by_cases hpi : p = i
    · rw [if_pos hpi.symm, if_pos hpi, if_pos hi, List.getElem?_eq_getElem hj]
    · rw [if_neg (Ne.symm hpi), if_neg hpi]
      by_cases hpj : p = j
      · rw [if_pos hpj.symm, if_pos hpj, if_pos hj, List.getElem?_eq_getElem hi]
      · rw [if_neg (Ne.symm hpj), if_neg hpj]

/-! ## Mirrored pairs, each swapped once -/

variable (c : Nat) (bit : Nat → Bool)

/-- The pairs `(i, c - i)` of `count` positions `i` from `start` on. -/
def swapPairs (start count : Nat) (l : List α) : List α :=
  (List.range' start count).foldl (fun l i => if bit (c - i) then swap l i (c - i) else l) l

theorem swapPairs_succ (start count : Nat) (l : List α) :
    swapPairs c bit start (count + 1) l =
      if bit (c - (start + count)) then
        swap (swapPairs c bit start count l) (start + count) (c - (start + count))
      else swapPairs c bit start count l := by
  unfold swapPairs
  rw [List.range'_concat, List.foldl_append, one_mul]
  rfl

theorem swapPairs_perm (start count : Nat) (l : List α) : (swapPairs c bit start count l).Perm l := by
  induction count with
  | zero => exact List.Perm.refl l
  | succ count ih =>
    rw [swapPairs_succ]
    split
    · exact (swap_perm _ _ _).trans ih
    · exact ih

/-- Where the pairs that were visited lead. -/
def mirrored (start count p : Nat) : Nat :=
  if p ≤ c ∧ start ≤ min p (c - p) ∧ min p (c - p) < start + count ∧ bit (max p (c - p)) then c - p
  else p

theorem swapPairs_reindexes {start count : Nat} (hc : c < start + l.length)
    (hmirror : 2 * (start + count) ≤ c + 1) :
    Reindexes (mirrored c bit start count) l (swapPairs c bit start count l) := by
  induction count with
  | zero =>
    refine (Reindexes.refl l).congr fun p _ => ?_
    unfold mirrored
    exact if_neg (by omega)
  | succ count ih =>
    have ih := ih (by omega)
    have hlow : start + count < l.length := by omega
    have hhigh : c - (start + count) < l.length := by omega
    rw [swapPairs_succ]
    by_cases hbit : bit (c - (start + count)) = true
    · rw [if_pos hbit]
      refine (ih.trans (swap_reindexes (ih.length_eq ▸ hlow) (ih.length_eq ▸ hhigh))).congr
        fun p _ => ?_
      simp only [Function.comp_apply]
      by_cases hplow : p = start + count
      · subst hplow
        rw [if_pos rfl]
        unfold mirrored
        rw [if_pos ⟨by omega, by omega, by omega, by rwa [max_eq_right (by omega)]⟩,
          if_neg (by omega)]
      · rw [if_neg hplow]
        by_cases hphigh : p = c - (start + count)
        · rw [if_pos hphigh]
          unfold mirrored
          rw [if_pos ⟨by omega, by omega, by omega, by rwa [max_eq_left (by omega), hphigh]⟩,
            if_neg (by omega)]
          omega
        · rw [if_neg hphigh]
          unfold mirrored
          congr 1
          have hne : min p (c - p) ≠ start + count ∨ ¬ p ≤ c := by omega
          apply propext
          constructor
          · rintro ⟨h₁, h₂, h₃, h₄⟩
            exact ⟨h₁, h₂, by omega, h₄⟩
          · rintro ⟨h₁, h₂, h₃, h₄⟩
            exact ⟨h₁, h₂, by omega, h₄⟩
    · rw [if_neg hbit]
      refine ih.congr fun p _ => ?_
      unfold mirrored
      congr 1
      apply propext
      constructor
      · rintro ⟨h₁, h₂, h₃, h₄⟩
        refine ⟨h₁, h₂, ?_, h₄⟩
        by_contra hge
        have heq : max p (c - p) = c - (start + count) := by omega
        rw [heq] at h₄
        exact hbit h₄
      · rintro ⟨h₁, h₂, h₃, h₄⟩
        exact ⟨h₁, h₂, by omega, h₄⟩

end

/-! ## Rounds -/

structure Round where
  pivot : Nat
  /-- For the higher position of a pair. -/
  bit : Nat → Bool

/-- The position at the other side of the pivot, around the end. -/
def flip (n pivot p : Nat) : Nat := (pivot + n - p) % n

theorem flip_of_le {n pivot p : Nat} (hpivot : pivot < n) (hp : p ≤ pivot) :
    flip n pivot p = pivot - p := by
  unfold flip
  rw [show pivot + n - p = pivot - p + n by omega, Nat.add_mod_right, Nat.mod_eq_of_lt (by omega)]

theorem flip_of_gt {n pivot p : Nat} (hp : pivot < p) (hpn : p < n) :
    flip n pivot p = n + pivot - p := by
  unfold flip
  rw [Nat.mod_eq_of_lt (by omega), Nat.add_comm]

theorem flip_spec {n pivot p : Nat} (hpivot : pivot < n) (hp : p < n) :
    flip n pivot p < n ∧ flip n pivot (flip n pivot p) = p := by
  rcases Nat.lt_or_ge pivot p with hgt | hle
  · rw [flip_of_gt hgt hp, flip_of_gt (by omega) (by omega)]
    omega
  · rw [flip_of_le hpivot hle, flip_of_le hpivot (by omega)]
    omega

namespace Round

variable (round : Round) {n p : Nat}

def apply (n p : Nat) : Nat :=
  if round.bit (max p (flip n round.pivot p)) then flip n round.pivot p else p

theorem apply_lt (hpivot : round.pivot < n) (hp : p < n) : round.apply n p < n := by
  unfold apply
  split
  · exact (flip_spec hpivot hp).1
  · exact hp

theorem apply_apply (hpivot : round.pivot < n) (hp : p < n) :
    round.apply n (round.apply n p) = p := by
  by_cases hbit : round.bit (max p (flip n round.pivot p)) = true
  · have happly : round.apply n p = flip n round.pivot p := if_pos hbit
    rw [happly]
    unfold apply
    rw [(flip_spec hpivot hp).2, max_comm, if_pos hbit]
  · have happly : round.apply n p = p := if_neg hbit
    rw [happly, happly]

/-- Both sides of the pivot, each pair once. -/
def swapPairs {α : Type*} (l : List α) : List α :=
  Base.swapPairs (l.length + round.pivot) round.bit (round.pivot + 1)
    ((round.pivot + l.length + 1) / 2 - (round.pivot + 1))
    (Base.swapPairs round.pivot round.bit 0 ((round.pivot + 1) / 2) l)

theorem swapPairs_perm {α : Type*} (l : List α) : (round.swapPairs l).Perm l :=
  (Base.swapPairs_perm _ _ _ _ _).trans (Base.swapPairs_perm _ _ _ _ _)

theorem mirrored_first (hpivot : round.pivot < n) :
    mirrored round.pivot round.bit 0 ((round.pivot + 1) / 2) p =
      if p ≤ round.pivot then round.apply n p else p := by
  unfold apply mirrored
  split_ifs with hpair hle hbit hle hbit
  · rw [flip_of_le hpivot hle]
  · rw [flip_of_le hpivot hle] at hbit
    exact absurd hpair.2.2.2 hbit
  · exact absurd hpair.1 hle
  · -- the centre is its own mirror image
    rw [flip_of_le hpivot hle] at hbit ⊢
    by_contra hne
    exact hpair ⟨hle, by omega, by omega, hbit⟩
  · rfl
  · rfl

theorem mirrored_second (hp : p < n) :
    mirrored (n + round.pivot) round.bit (round.pivot + 1)
      ((round.pivot + n + 1) / 2 - (round.pivot + 1)) p =
      if p ≤ round.pivot then p else round.apply n p := by
  unfold apply mirrored
  split_ifs with hpair hle hbit hle hbit
  · omega
  · rw [flip_of_gt (by omega) hp]
  · rw [flip_of_gt (by omega) hp] at hbit
    exact absurd hpair.2.2.2 hbit
  · rfl
  · rw [flip_of_gt (by omega) hp] at hbit ⊢
    by_contra hne
    exact hpair ⟨by omega, by omega, by omega, hbit⟩
  · rfl

theorem mirrored_apply (hpivot : round.pivot < n) (hp : p < n) :
    mirrored round.pivot round.bit 0 ((round.pivot + 1) / 2)
      (mirrored (n + round.pivot) round.bit (round.pivot + 1)
        ((round.pivot + n + 1) / 2 - (round.pivot + 1)) p) = round.apply n p := by
  rw [round.mirrored_second hp, round.mirrored_first hpivot]
  by_cases hle : p ≤ round.pivot
  · rw [if_pos hle, if_pos hle]
  · rw [if_neg hle, if_neg]
    unfold apply
    rw [flip_of_gt (by omega) hp]
    split <;> omega

theorem swapPairs_reindexes {α : Type*} {l : List α} (hpivot : round.pivot < l.length) :
    Reindexes (round.apply l.length) l (round.swapPairs l) := by
  have hfirst : Reindexes (mirrored round.pivot round.bit 0 ((round.pivot + 1) / 2)) l
      (Base.swapPairs round.pivot round.bit 0 ((round.pivot + 1) / 2) l) :=
    Base.swapPairs_reindexes _ _ (by omega) (by omega)
  refine (hfirst.trans (Base.swapPairs_reindexes _ _ ?_ ?_)).congr fun p hp => ?_
  · rw [hfirst.length_eq]
    omega
  · omega
  · exact (round.mirrored_apply hpivot hp).symm

end Round

/-! ## Runs of rounds -/

/-- The rounds one after the other. -/
def walk (n : Nat) (rounds : List Round) (p : Nat) : Nat :=
  rounds.foldl (fun p round => round.apply n p) p

variable {n p : Nat} {rounds : List Round}

theorem walk_reverse_cons (round : Round) :
    walk n (round :: rounds).reverse p = round.apply n (walk n rounds.reverse p) := by
  unfold walk
  rw [List.reverse_cons, List.foldl_append]
  rfl

theorem walk_lt (hpivot : ∀ round ∈ rounds, round.pivot < n) (hp : p < n) : walk n rounds p < n := by
  induction rounds generalizing p with
  | nil => exact hp
  | cons round rounds ih =>
    exact ih (fun other hmem => hpivot other (List.mem_cons_of_mem _ hmem))
      (round.apply_lt (hpivot round List.mem_cons_self) hp)

theorem walk_reverse (hpivot : ∀ round ∈ rounds, round.pivot < n) (hp : p < n) :
    walk n rounds.reverse (walk n rounds p) = p := by
  induction rounds generalizing p with
  | nil => rfl
  | cons round rounds ih =>
    have hround := hpivot round List.mem_cons_self
    have hback := ih (fun other hmem => hpivot other (List.mem_cons_of_mem _ hmem))
      (round.apply_lt hround hp)
    rw [walk_reverse_cons]
    exact (congrArg (round.apply n) hback).trans (round.apply_apply hround hp)

def shuffle {α : Type*} (rounds : List Round) (l : List α) : List α :=
  rounds.foldl (fun l round => round.swapPairs l) l

theorem shuffle_perm {α : Type*} (rounds : List Round) (l : List α) : (shuffle rounds l).Perm l := by
  induction rounds generalizing l with
  | nil => exact List.Perm.refl l
  | cons round rounds ih => exact (ih _).trans (round.swapPairs_perm l)

theorem shuffle_reindexes {α : Type*} {l : List α} (hpivot : ∀ round ∈ rounds, round.pivot < l.length) :
    Reindexes (walk l.length rounds.reverse) l (shuffle rounds l) := by
  induction rounds generalizing l with
  | nil => exact Reindexes.refl l
  | cons round rounds ih =>
    have hfirst := round.swapPairs_reindexes (hpivot round List.mem_cons_self)
    have hrest := ih (l := round.swapPairs l) fun other hmem => by
      rw [hfirst.length_eq]
      exact hpivot other (List.mem_cons_of_mem _ hmem)
    rw [hfirst.length_eq] at hrest
    exact (hfirst.trans hrest).congr fun p _ => walk_reverse_cons round

theorem shuffle_reverse_shuffle {α : Type*} {l : List α}
    (hpivot : ∀ round ∈ rounds, round.pivot < l.length) :
    shuffle rounds.reverse (shuffle rounds l) = l := by
  have hfirst := shuffle_reindexes hpivot
  have hpivot' : ∀ round ∈ rounds.reverse, round.pivot < (shuffle rounds l).length := by
    intro round hmem
    rw [hfirst.length_eq]
    exact hpivot round (List.mem_reverse.1 hmem)
  have hsecond := shuffle_reindexes hpivot'
  rw [hfirst.length_eq, List.reverse_reverse] at hsecond
  refine (hfirst.trans hsecond).eq_of_id fun p hp => ?_
  exact walk_reverse hpivot hp

end Lodestar.Base
