import Mathlib.Tactic

/-!
# Consecutive slices of a list

Slices between bounds that do not go back join to what the bounds enclose
(`flatten_slices`). Bounds at the fractions `k / count` of the length make
slices that differ by one at most (`length_evenSlice`).
-/

namespace Lodestar.Base

variable {α β : Type*}

def slice (l : List α) (first last : Nat) : List α := (l.drop first).take (last - first)

theorem length_slice {l : List α} {first last : Nat} (h : last ≤ l.length) :
    (slice l first last).length = last - first := by
  unfold slice
  rw [List.length_take, List.length_drop]
  omega

theorem getElem?_slice {l : List α} {first last i : Nat} (h : i < last - first) :
    (slice l first last)[i]? = l[first + i]? := by
  unfold slice
  rw [List.getElem?_take, if_pos h, List.getElem?_drop]

theorem flatten_slices (bound : Nat → Nat) (l : List α) (count : Nat) (hzero : bound 0 = 0)
    (hle : ∀ k < count, bound k ≤ bound (k + 1)) :
    ((List.range count).map fun k => slice l (bound k) (bound (k + 1))).flatten =
      l.take (bound count) := by
  induction count with
  | zero => simp [hzero]
  | succ count ih =>
    have hlast := hle count (Nat.lt_succ_self count)
    rw [List.range_succ, List.map_append, List.flatten_append,
      ih fun k hk => hle k (Nat.lt_succ_of_lt hk)]
    have hsplit : bound (count + 1) = bound count + (bound (count + 1) - bound count) := by omega
    conv_rhs => rw [hsplit, List.take_add]
    simp [slice]

/-! ## Even slices -/

variable {n count k : Nat}

theorem evenBound_le : n * k / count ≤ n * (k + 1) / count :=
  Nat.div_le_div_right (Nat.mul_le_mul_left n (Nat.le_succ k))

theorem evenBound_le_length (h : k ≤ count) : n * k / count ≤ n := by
  rcases Nat.eq_zero_or_pos count with rfl | hpos
  · simp
  · exact Nat.div_le_of_le_mul (by rw [mul_comm count]; exact Nat.mul_le_mul_left n h)

theorem evenBound_count (hcount : 0 < count) : n * count / count = n :=
  Nat.mul_div_cancel n hcount

theorem length_evenSlice (l : List α) (hk : k < count) :
    l.length / count ≤ (slice l (l.length * k / count) (l.length * (k + 1) / count)).length ∧
      (slice l (l.length * k / count) (l.length * (k + 1) / count)).length ≤ l.length / count + 1 := by
  have hpos : 0 < count := by omega
  rw [length_slice (evenBound_le_length hk), Nat.mul_succ, Nat.add_div hpos]
  generalize l.length / count = share
  generalize l.length * k / count = first
  split <;> omega

theorem flatten_evenSlices (l : List α) (hcount : 0 < count) :
    ((List.range count).map fun k =>
      slice l (l.length * k / count) (l.length * (k + 1) / count)).flatten = l := by
  rw [flatten_slices (fun k => l.length * k / count) l count (by simp)
    fun k _ => evenBound_le, evenBound_count hcount, List.take_length]

/-! ## Rows -/

theorem flatten_rows (rows columns : Nat) (f : Nat → β) :
    ((List.range rows).map fun row => (List.range columns).map fun column =>
      f (row * columns + column)).flatten = (List.range (rows * columns)).map f := by
  induction rows with
  | zero => simp
  | succ rows ih =>
    rw [List.range_succ, List.map_append, List.flatten_append, ih, Nat.succ_mul, List.range_add,
      List.map_append]
    simp

/-! ## Lists read by index -/

theorem getElem?_eq_some_getD (l : List α) {i : Nat} (d : α) (h : i < l.length) :
    l[i]? = some (l.getD i d) := by
  rw [List.getD_eq_getElem?_getD, List.getElem?_eq_getElem h, Option.getD_some]

theorem map_range_getD (l : List α) (d : α) : (List.range l.length).map (fun i => l.getD i d) = l := by
  refine List.ext_getElem? fun i => ?_
  rcases Nat.lt_or_ge i l.length with hi | hi
  · rw [List.getElem?_map, List.getElem?_range hi, getElem?_eq_some_getD l d hi]
    rfl
  · rw [List.getElem?_eq_none hi, List.getElem?_eq_none (by simpa using hi)]

theorem flatMap_range_getD (l : List α) (d : α) (f : α → List β) :
    (List.range l.length).flatMap (fun i => f (l.getD i d)) = l.flatMap f := by
  conv_rhs => rw [← map_range_getD l d, List.flatMap_map]

/-! ## Lists without repeats -/

theorem nodup_eraseDups [BEq α] [LawfulBEq α] (l : List α) : l.eraseDups.Nodup := by
  induction h : l.length using Nat.strong_induction_on generalizing l with
  | h n ih =>
    cases l with
    | nil => simp
    | cons a l =>
      rw [List.eraseDups_cons, List.nodup_cons]
      have hle := List.length_filter_le (fun b => !b == a) l
      rw [List.length_cons] at h
      refine ⟨by simp [List.mem_eraseDups], ih _ ?_ _ rfl⟩
      omega

end Lodestar.Base
