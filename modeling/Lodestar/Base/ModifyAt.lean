import Mathlib.Data.List.Nodup
import Mathlib.Tactic

/-!
# Lists modified at a set of places

A loop that modifies a list at one index after the other changes exactly the
elements at these indices (`getElem?_modifyAt`). A sorted list is below a bound
up to its first element past it (`takeWhile_eq_filter`), and what is below can
be picked out before the list is sorted (`filter_mergeSort`). Removing elements by
index, the last one first, leaves what the indices were not collected for
(`foldl_eraseIdx_indicesOf`).
-/

namespace Lodestar.Base

variable {α : Type*}

/-- `f` at each index. -/
def modifyAt (indices : List Nat) (f : α → α) (l : List α) : List α :=
  indices.foldl (fun l i => l.modify i f) l

theorem modifyAt_cons (i : Nat) (indices : List Nat) (f : α → α) (l : List α) :
    modifyAt (i :: indices) f l = modifyAt indices f (l.modify i f) := rfl

theorem getElem?_modify_eq (f : α → α) (l : List α) (i j : Nat) :
    (l.modify i f)[j]? = if i = j then l[j]?.map f else l[j]? := by
  rw [List.getElem?_modify]
  split <;> cases l[j]? <;> rfl

theorem getElem?_modifyAt {indices : List Nat} (hnodup : indices.Nodup) (f : α → α) (l : List α)
    (j : Nat) : (modifyAt indices f l)[j]? = if j ∈ indices then l[j]?.map f else l[j]? := by
  induction indices generalizing l with
  | nil => simp [modifyAt]
  | cons i indices ih =>
    obtain ⟨hnotMem, hnodup⟩ := List.nodup_cons.1 hnodup
    rw [modifyAt_cons, ih hnodup, getElem?_modify_eq]
    simp only [List.mem_cons]
    by_cases hmem : j ∈ indices
    · have hne : i ≠ j := fun h => hnotMem (h ▸ hmem)
      rw [if_pos hmem, if_neg hne, if_pos (Or.inr hmem)]
    · rw [if_neg hmem]
      by_cases heq : i = j
      · rw [if_pos heq, if_pos (Or.inl heq.symm)]
      · rw [if_neg heq, if_neg (not_or.2 ⟨Ne.symm heq, hmem⟩)]

theorem map_modifyAt {β : Type*} {f : α → α} {g : α → β} (h : ∀ a, g (f a) = g a)
    (indices : List Nat) (l : List α) : (modifyAt indices f l).map g = l.map g := by
  induction indices generalizing l with
  | nil => rfl
  | cons i indices ih =>
    rw [modifyAt_cons, ih]
    refine List.ext_getElem? fun j => ?_
    rw [List.getElem?_map, List.getElem?_map, getElem?_modify_eq]
    split
    · rw [Option.map_map]
      exact congrFun (congrArg Option.map (funext h)) _
    · rfl

theorem set_eq_self {l : List α} {i : Nat} {a : α} (ha : l[i]? = some a) : l.set i a = l := by
  obtain ⟨hlt, rfl⟩ := List.getElem?_eq_some_iff.1 ha
  exact List.set_getElem_self hlt

theorem modify_eq_set_of_getElem? {l : List α} {i : Nat} {a : α} (ha : l[i]? = some a) (f : α → α) :
    l.modify i f = l.set i (f a) := by
  refine List.ext_getElem? fun j => ?_
  rw [getElem?_modify_eq]
  split
  next heq =>
    subst heq
    rw [List.getElem?_set_self (List.getElem?_eq_some_iff.1 ha).1, ha, Option.map_some]
  next hne => rw [List.getElem?_set_ne hne]

theorem map_set_of_eq {β : Type*} {g : α → β} {l : List α} {i : Nat} {a b : α} (ha : l[i]? = some a)
    (h : g b = g a) : (l.set i b).map g = l.map g := by
  refine List.ext_getElem? fun j => ?_
  rw [List.getElem?_map, List.getElem?_map]
  by_cases heq : i = j
  · subst heq
    rw [List.getElem?_set_self (List.getElem?_eq_some_iff.1 ha).1, ha]
    exact congrArg some h
  · rw [List.getElem?_set_ne heq]

/-! ## Sorted lists -/

variable {le : α → α → Bool} {p : α → Bool}

theorem takeWhile_eq_filter {l : List α} (hsorted : l.Pairwise fun a b => le a b = true)
    (hbelow : ∀ a ∈ l, ∀ b ∈ l, le a b = true → p b = true → p a = true) :
    l.takeWhile p = l.filter p := by
  induction l with
  | nil => rfl
  | cons a l ih =>
    obtain ⟨hfirst, hrest⟩ := List.pairwise_cons.1 hsorted
    have ih := ih hrest fun b hb c hc =>
      hbelow b (List.mem_cons_of_mem _ hb) c (List.mem_cons_of_mem _ hc)
    by_cases ha : p a = true
    · rw [List.takeWhile_cons_of_pos ha, List.filter_cons_of_pos ha, ih]
    · have hnone : l.filter p = [] := by
        rw [List.filter_eq_nil_iff]
        intro b hb hpb
        exact ha (hbelow a List.mem_cons_self b (List.mem_cons_of_mem _ hb) (hfirst b hb) hpb)
      rw [List.takeWhile_cons_of_neg ha, List.filter_cons_of_neg ha, hnone]

/-- Where `p` holds of a first part only, what follows as many elements as `p` holds of is the rest. -/
theorem drop_eq_filter_not {l : List α} (hsorted : l.Pairwise fun a b => le a b = true)
    (hbelow : ∀ a ∈ l, ∀ b ∈ l, le a b = true → p b = true → p a = true) :
    l.drop (l.filter p).length = l.filter (!p ·) := by
  have hfirst := takeWhile_eq_filter hsorted hbelow
  have hsplit : l.filter p ++ l.dropWhile p = l := by
    rw [← hfirst, List.takeWhile_append_dropWhile]
  have hrest : (l.dropWhile p).filter p = [] := by
    have hfilter := congrArg (List.filter p) hsplit
    rw [List.filter_append, List.filter_filter] at hfilter
    simpa using hfilter
  have hnone : ∀ a ∈ l.dropWhile p, (!p a) = true := fun a ha => by
    have hfalse := List.filter_eq_nil_iff.1 hrest a ha
    simpa using hfalse
  calc l.drop (l.filter p).length
      _ = (l.filter p ++ l.dropWhile p).drop (l.filter p).length := by rw [hsplit]
      _ = l.dropWhile p := List.drop_left
      _ = (l.filter p ++ l.dropWhile p).filter (!p ·) := by
        rw [List.filter_append, List.filter_eq_self.2 hnone, List.filter_filter]
        simp
      _ = l.filter (!p ·) := by rw [hsplit]

/-- Sorting and keeping what is below the bound commute, also where the second list is sorted by an
order that agrees on its elements. -/
theorem filter_mergeSort {le' : α → α → Bool}
    (htrans : ∀ a b c, le a b = true → le b c = true → le a c = true)
    (htotal : ∀ a b, (le a b || le b a) = true)
    (htrans' : ∀ a b c, le' a b = true → le' b c = true → le' a c = true)
    (htotal' : ∀ a b, (le' a b || le' b a) = true) {l l' : List α}
    (hanti : ∀ a b, le a b = true → le b a = true → a = b)
    (hagree : ∀ a ∈ l', ∀ b ∈ l', le' a b = true → le a b = true) (hperm : l'.Perm (l.filter p)) :
    (l.mergeSort le).filter p = l'.mergeSort le' := by
  have hsorted' : (l'.mergeSort le').Pairwise fun a b => le a b = true := by
    refine (List.pairwise_mergeSort htrans' htotal' l').imp_of_mem fun ha hb => ?_
    exact hagree _ (List.mem_mergeSort.1 ha) _ (List.mem_mergeSort.1 hb)
  refine List.Perm.eq_of_pairwise (fun a b _ _ => hanti a b)
    ((List.pairwise_mergeSort htrans htotal l).filter p) hsorted' ?_
  exact ((List.mergeSort_perm l le).filter p).trans
    (hperm.symm.trans (List.mergeSort_perm l' le').symm)

/-! ## Removal by index -/

/-- The indices at which `p` holds, if the first element is at `i`. -/
def indicesOf (p : α → Bool) : Nat → List α → List Nat
  | _, [] => []
  | i, a :: l => if p a then i :: indicesOf p (i + 1) l else indicesOf p (i + 1) l

theorem foldr_eraseIdx_succ (p : α → Bool) (a : α) (i : Nat) (l : List α) (kept : List α) :
    (indicesOf p (i + 1) l).foldr (fun i kept => kept.eraseIdx i) (a :: kept) =
      a :: (indicesOf p i l).foldr (fun i kept => kept.eraseIdx i) kept := by
  induction l generalizing i with
  | nil => rfl
  | cons b l ih =>
    unfold indicesOf
    by_cases hb : p b = true
    · rw [if_pos hb, if_pos hb, List.foldr_cons, List.foldr_cons, ih]
      rfl
    · rw [if_neg hb, if_neg hb, ih]

theorem foldl_eraseIdx_indicesOf (p : α → Bool) (l : List α) :
    (indicesOf p 0 l).reverse.foldl List.eraseIdx l = l.filter (!p ·) := by
  rw [List.foldl_reverse]
  induction l with
  | nil => rfl
  | cons a l ih =>
    have hrest := foldr_eraseIdx_succ p a 0 l l
    unfold indicesOf
    by_cases ha : p a = true
    · rw [if_pos ha, List.foldr_cons, hrest, ih]
      simp [ha]
    · rw [if_neg ha, hrest, ih]
      simp [ha]

end Lodestar.Base
