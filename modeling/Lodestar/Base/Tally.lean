import Mathlib.Tactic
import Std.Data.TreeMap.Lemmas

/-!
# Loops that add up and memoise

`tally` performs additions at indices of a list of numbers, one after the
other; each entry ends with the total of what was added at its index. `memo`
looks a key up before it computes the value and stores what it computed; a
table that only ever got values this way never shows (`Memoises`).
-/

namespace Lodestar.Base

open Std (TreeMap TransOrd LawfulEqOrd)

/-! ## Additions at indices -/

def addAt (xs : List Nat) (i x : Nat) : List Nat :=
  xs.modify i (· + x)

/-- The additions, each an index with an amount. -/
def tally (xs : List Nat) (adds : List (Nat × Nat)) : List Nat :=
  adds.foldl (fun xs add => addAt xs add.1 add.2) xs

/-- What is added at `j` in all. -/
def totalAt (adds : List (Nat × Nat)) (j : Nat) : Nat :=
  ((adds.filter (·.1 = j)).map (·.2)).sum

variable {xs : List Nat} {adds adds' : List (Nat × Nat)} {i j x : Nat}

@[simp] theorem length_addAt : (addAt xs i x).length = xs.length :=
  List.length_modify ..

@[simp] theorem tally_nil : tally xs [] = xs := by
  rw [tally, List.foldl_nil]

@[simp] theorem tally_cons (add : Nat × Nat) :
    tally xs (add :: adds) = tally (addAt xs add.1 add.2) adds := rfl

theorem tally_append : tally xs (adds ++ adds') = tally (tally xs adds) adds' :=
  List.foldl_append

@[simp] theorem length_tally : (tally xs adds).length = xs.length := by
  induction adds generalizing xs with
  | nil => rfl
  | cons add adds ih => rw [tally_cons, ih, length_addAt]

theorem totalAt_cons (add : Nat × Nat) :
    totalAt (add :: adds) j = (if add.1 = j then add.2 else 0) + totalAt adds j := by
  unfold totalAt
  by_cases h : add.1 = j
  · rw [List.filter_cons_of_pos (by simpa using h), List.map_cons, List.sum_cons, if_pos h]
  · rw [List.filter_cons_of_neg (by simpa using h), if_neg h, Nat.zero_add]

theorem totalAt_singleton : totalAt [(i, x)] j = if i = j then x else 0 :=
  totalAt_cons _

theorem totalAt_append : totalAt (adds ++ adds') j = totalAt adds j + totalAt adds' j := by
  unfold totalAt
  rw [List.filter_append, List.map_append, List.sum_append]

theorem totalAt_ite (c : Bool) :
    totalAt (if c then [(i, x)] else []) j = if c && decide (i = j) then x else 0 := by
  cases c with
  | false => rfl
  | true =>
    rw [if_pos rfl, totalAt_cons]
    by_cases h : i = j <;> simp [h, totalAt]

theorem totalAt_flatMap {α : Type} (l : List α) (f : α → List (Nat × Nat)) :
    totalAt (l.flatMap f) j = (l.map fun a => totalAt (f a) j).sum := by
  induction l with
  | nil => rfl
  | cons a l ih => rw [List.flatMap_cons, totalAt_append, ih, List.map_cons, List.sum_cons]

theorem getElem?_tally : (tally xs adds)[j]? = xs[j]?.map (· + totalAt adds j) := by
  induction adds generalizing xs with
  | nil =>
    show xs[j]? = xs[j]?.map (· + 0)
    simp
  | cons add adds ih =>
    rw [tally_cons, ih, totalAt_cons, addAt, List.getElem?_modify]
    cases xs[j]? with
    | none => rfl
    | some x =>
      by_cases h : add.1 = j
      · simp [h, Nat.add_assoc]
      · simp [h]

theorem getElem?_tally_replicate {n : Nat} (hj : j < n) :
    (tally (List.replicate n 0) adds)[j]? = some (totalAt adds j) := by
  rw [getElem?_tally, List.getElem?_replicate, if_pos hj, Option.map_some, Nat.zero_add]

/-- A loop whose body only performs additions, as long as an invariant of its other variables
holds. -/
theorem foldl_tally {σ α : Type} (Inv : σ → Prop) (proj : σ → List Nat) {step : σ → α → σ}
    {addsOf : α → List (Nat × Nat)}
    (hstep : ∀ s a, Inv s → proj (step s a) = tally (proj s) (addsOf a) ∧ Inv (step s a))
    (l : List α) {s : σ} (hs : Inv s) :
    proj (l.foldl step s) = tally (proj s) (l.flatMap addsOf) := by
  induction l generalizing s with
  | nil => rfl
  | cons a l ih =>
    obtain ⟨hadds, hinv⟩ := hstep s a hs
    rw [List.foldl_cons, ih hinv, List.flatMap_cons, tally_append, hadds]

theorem eq_map_range {α : Type} {l : List α} {f : Nat → α} {n : Nat} (hlen : l.length = n)
    (h : ∀ i < n, l[i]? = some (f i)) : l = (List.range n).map f := by
  refine List.ext_getElem? fun i => ?_
  by_cases hi : i < n
  · rw [h i hi, List.getElem?_map, List.getElem?_range hi, Option.map_some]
  · rw [List.getElem?_eq_none (by omega), List.getElem?_eq_none (by simpa using hi)]

theorem getElem?_foldl_modify {α : Type} {f : α → α} (hf : ∀ a, f (f a) = f a) (l : List α)
    (is : List Nat) :
    (is.foldl (fun l i => l.modify i f) l)[j]? = l[j]?.map fun a => if j ∈ is then f a else a := by
  induction is generalizing l with
  | nil => simp
  | cons i is ih =>
    rw [List.foldl_cons, ih, List.getElem?_modify]
    cases l[j]? with
    | none => rfl
    | some a =>
      by_cases hij : i = j
      · simp [hij, hf]
      · simp [hij, Ne.symm hij]

/-- Writes of a function's values, in any order and as often as one likes. -/
theorem getElem?_foldl_set {α : Type} (value : Nat → Option α) (entries : List (Nat × α))
    (h : ∀ i a, (i, a) ∈ entries → value i = some a) (l : List α) (i : Nat) :
    (entries.foldl (fun l entry => l.set entry.1 entry.2) l)[i]?
      = l[i]?.map fun a => if i ∈ entries.map (·.1) then (value i).getD a else a := by
  induction entries generalizing l with
  | nil => simp
  | cons entry entries ih =>
    have hentry := h entry.1 entry.2 List.mem_cons_self
    rw [List.foldl_cons, ih fun i a hmem => h i a (List.mem_cons_of_mem _ hmem), List.getElem?_set]
    by_cases hi : entry.1 = i
    · subst hi
      by_cases hlt : entry.1 < l.length
      · rw [if_pos rfl, if_pos hlt, List.getElem?_eq_getElem hlt]
        simp [hentry]
      · rw [if_pos rfl, if_neg hlt, List.getElem?_eq_none (Nat.le_of_not_lt hlt)]
        rfl
    · rw [if_neg hi, List.map_cons]
      simp only [List.mem_cons, Ne.symm hi, false_or]

theorem length_eq_of_getElem?_map {α β : Type} {l : List α} {l' : List β} {f : Nat → β → α}
    (h : ∀ i, l[i]? = l'[i]?.map (f i)) : l.length = l'.length := by
  refine Nat.le_antisymm (List.getElem?_eq_none_iff.mp ?_) (List.getElem?_eq_none_iff.mp ?_)
  · rw [h, List.getElem?_eq_none (Nat.le_refl _), Option.map_none]
  · have hnone := h l.length
    rw [List.getElem?_eq_none (Nat.le_refl _)] at hnone
    exact Option.map_eq_none_iff.mp hnone.symm

/-! ## One entry in a sum -/

theorem sum_map_zipIdx_eq {α : Type} {l : List α} {f : α × Nat → Nat} {a : α}
    (ha : l[j]? = some a) (hf : ∀ b i, i ≠ j → f (b, i) = 0) : (l.zipIdx.map f).sum = f (a, j) := by
  have hlt : j < l.length := (List.getElem?_eq_some_iff.mp ha).1
  have hget : l.zipIdx[j]? = some (a, j) := by
    rw [List.getElem?_zipIdx, ha, Option.map_some, Nat.zero_add]
  have hmap : l.zipIdx.map f = (List.replicate l.length 0).set j (f (a, j)) := by
    refine List.ext_getElem? fun i => ?_
    rw [List.getElem?_map, List.getElem?_set, List.getElem?_zipIdx, List.length_replicate]
    by_cases hij : j = i
    · subst hij
      rw [if_pos rfl, if_pos hlt, ha]
      simp
    · rw [if_neg hij, List.getElem?_replicate]
      cases hi : l[i]? with
      | none =>
        rw [if_neg (by simpa using List.getElem?_eq_none_iff.mp hi)]
        rfl
      | some b =>
        rw [if_pos (List.getElem?_eq_some_iff.mp hi).1]
        simp [hf b i (Ne.symm hij)]
  rw [hmap, List.sum_set, if_pos (by simpa using hlt)]
  simp

theorem sum_map_zipIdx {α : Type} {l : List α} {f : α × Nat → Nat} {g : Nat → Nat}
    (h : ∀ i a, l[i]? = some a → f (a, i) = g i) :
    (l.zipIdx.map f).sum = ((List.range l.length).map g).sum := by
  congr 1
  refine eq_map_range (by simp) fun i hi => ?_
  have ha := List.getElem?_eq_getElem hi
  rw [List.getElem?_map, List.getElem?_zipIdx, ha, Option.map_some, Option.map_some, Nat.zero_add,
    h i _ ha]

theorem sum_zip_filter {α : Type} (p : α → Bool) {l : List α} {bs : List Nat}
    (h : l.length = bs.length) :
    (((l.zip bs).filter fun e => p e.1).map (·.2)).sum
      = (((List.range l.length).filter fun i => l[i]?.any p).map fun i => bs.getD i 0).sum := by
  induction l using List.reverseRecOn generalizing bs with
  | nil => rfl
  | append_singleton l a ih =>
    obtain ⟨bs, b, rfl⟩ : ∃ bs' b, bs = bs' ++ [b] := by
      refine ⟨bs.dropLast, bs.getLast ?_, (List.dropLast_append_getLast _).symm⟩
      rintro rfl
      simp at h
    have hlen : l.length = bs.length := by simpa using h
    have hprefix : (((List.range l.length).filter fun i => (l ++ [a])[i]?.any p).map
          fun i => (bs ++ [b]).getD i 0)
        = ((List.range l.length).filter fun i => l[i]?.any p).map fun i => bs.getD i 0 := by
      rw [List.filter_congr (q := fun i => l[i]?.any p)]
      · refine List.map_congr_left fun i hi => ?_
        have hlt : i < bs.length := hlen ▸ List.mem_range.mp (List.mem_filter.mp hi).1
        rw [List.getD_eq_getElem?_getD, List.getD_eq_getElem?_getD, List.getElem?_append_left hlt]
      · intro i hi
        rw [List.getElem?_append_left (List.mem_range.mp hi)]
    rw [List.zip_append hlen, List.filter_append, List.map_append, List.sum_append, ih hlen,
      List.length_append, List.length_singleton, List.range_succ, List.filter_append,
      List.map_append, List.sum_append, hprefix]
    congr 1
    cases hp : p a <;> simp [hp, hlen]

/-! ## Memo tables -/

section Memo

variable {κ ν : Type} [Ord κ] [TransOrd κ] [LawfulEqOrd κ] {f : κ → ν} {cache : TreeMap κ ν}

/-- The value at `k`, from the table if it is there, and the table with it. -/
def memo (f : κ → ν) (cache : TreeMap κ ν) (k : κ) : ν × TreeMap κ ν :=
  match cache[k]? with
  | some v => (v, cache)
  | none => (f k, cache.insert k (f k))

/-- The table holds values of `f` only. -/
def Memoises (f : κ → ν) (cache : TreeMap κ ν) : Prop :=
  ∀ k v, cache[k]? = some v → v = f k

omit [LawfulEqOrd κ] in
theorem memoises_empty : Memoises f ∅ := fun k v h => by simp at h

omit [TransOrd κ] [LawfulEqOrd κ] in
theorem Memoises.memo_fst (h : Memoises f cache) (k : κ) : (memo f cache k).1 = f k := by
  unfold memo
  cases hk : cache[k]? with
  | none => rfl
  | some v => exact h k v hk

theorem Memoises.memo_snd (h : Memoises f cache) (k : κ) : Memoises f (memo f cache k).2 := by
  unfold memo
  cases hk : cache[k]? with
  | some v => exact h
  | none =>
    intro k' v hv
    rw [TreeMap.getElem?_insert] at hv
    split at hv
    · rename_i heq
      rw [← LawfulEqOrd.eq_of_compare heq]
      exact (Option.some.inj hv).symm
    · exact h k' v hv

end Memo

end Lodestar.Base
