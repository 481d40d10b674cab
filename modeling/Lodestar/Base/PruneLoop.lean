import Mathlib.Data.List.TakeWhile
import Lodestar.Base.Except
import Lodestar.Base.OrderedMap

/-!
# Loops that delete entries of a map

A loop over the entries of a map deletes those that a check accepts, and stops
at the first entry on which the check throws.
-/

namespace Lodestar.Base

variable {ε σ α β : Type} {prunable : α × β → Except ε Bool} {l : List (α × β)}

/-- The loop; `delete` is the write to the map of the state. -/
def pruneEntries (prunable : α × β → Except ε Bool) (delete : α → σ → σ) :
    List (α × β) → EStateM ε σ Unit
  | [] => pure ()
  | e :: entries => do
    let drop ← MonadExcept.ofExcept (prunable e)
    if drop then modify (delete e.1)
    pruneEntries prunable delete entries

/-- The entries that the loop comes to and checks. -/
def checkedEntries (prunable : α × β → Except ε Bool) (l : List (α × β)) : List (α × β) :=
  l.takeWhile fun e => (prunable e).isOk

/-- The entries that the loop deletes. -/
def droppedEntries (prunable : α × β → Except ε Bool) (l : List (α × β)) : List (α × β) :=
  (checkedEntries prunable l).filter fun e => okOr false (prunable e)

theorem mem_droppedEntries {e : α × β} :
    e ∈ droppedEntries prunable l ↔ e ∈ checkedEntries prunable l ∧ prunable e = .ok true := by
  unfold droppedEntries
  rw [List.mem_filter]
  constructor
  · rintro ⟨hmem, htrue⟩
    have hok := List.mem_takeWhile_imp (p := fun e => (prunable e).isOk) hmem
    refine ⟨hmem, ?_⟩
    rw [eq_ok_okOr false hok, htrue]
  · rintro ⟨hmem, htrue⟩
    exact ⟨hmem, by rw [htrue]; rfl⟩

theorem droppedEntries_cons_error {e : α × β} {error : ε} (h : prunable e = .error error) :
    droppedEntries prunable (e :: l) = [] := by
  rw [droppedEntries, checkedEntries, List.takeWhile_cons_of_neg]
  · rfl
  · rw [h]
    exact Bool.false_ne_true

theorem droppedEntries_cons_ok {e : α × β} {drop : Bool} (h : prunable e = .ok drop) :
    droppedEntries prunable (e :: l)
      = if drop = true then e :: droppedEntries prunable l else droppedEntries prunable l := by
  rw [droppedEntries, checkedEntries, List.takeWhile_cons_of_pos (by rw [h]; rfl), List.filter_cons,
    h]
  rfl

theorem stateOf_pruneEntries (delete : α → σ → σ) (s : σ) :
    stateOf ((pruneEntries prunable delete l).run s)
      = ((droppedEntries prunable l).map Prod.fst).foldl (fun s a => delete a s) s := by
  induction l generalizing s with
  | nil => rfl
  | cons e l ih =>
    rw [pruneEntries, EStateM.run_bind, run_ofExcept]
    cases he : prunable e with
    | error error =>
      rw [droppedEntries_cons_error he]
      rfl
    | ok drop =>
      rw [droppedEntries_cons_ok he]
      cases drop
      · exact ih s
      · exact ih (delete e.1 s)

theorem frame_pruneEntries {γ : Type} {f : σ → γ} {delete : α → σ → σ}
    (h : ∀ a s, f (delete a s) = f s) (s : σ) :
    f (stateOf ((pruneEntries prunable delete l).run s)) = f s := by
  rw [stateOf_pruneEntries]
  generalize (droppedEntries prunable l).map Prod.fst = keys
  induction keys generalizing s with
  | nil => rfl
  | cons a keys ih => exact (ih (delete a s)).trans (h a s)

theorem moves_pruneEntries {R : σ → σ → Prop} {delete : α → σ → σ} (hrefl : ∀ s, R s s)
    (htrans : ∀ {a b c}, R a b → R b c → R a c) (h : ∀ a s, R s (delete a s)) :
    Moves R (pruneEntries prunable delete l) := by
  induction l with
  | nil => exact hrefl
  | cons e l ih =>
    refine Moves.bind htrans (.ofExcept hrefl _) fun drop => ?_
    cases drop
    · exact ih
    · exact Moves.bind htrans (.modify (h e.1)) fun _ => ih

theorem errorOf_pruneEntries (delete : α → σ → σ) (s : σ) :
    errorOf ((pruneEntries prunable delete l).run s) = none
      ↔ ∀ e ∈ l, (prunable e).isOk = true := by
  induction l generalizing s with
  | nil => simp [pruneEntries, errorOf]
  | cons e l ih =>
    rw [pruneEntries, EStateM.run_bind, run_ofExcept, List.forall_mem_cons]
    cases he : prunable e with
    | error error => simp [errorOf, Except.isOk, Except.toBool]
    | ok drop =>
      have hok : (Except.ok drop : Except ε Bool).isOk = true := rfl
      rw [and_iff_right hok]
      cases drop
      · exact ih s
      · exact ih (delete e.1 s)

section

variable [DecidableEq α] {m : OrderedMap α β}

theorem OrderedMap.mem_entries_foldl_delete {keys : List α} {e : α × β} :
    e ∈ (keys.foldl (·.delete ·) m).entries ↔ e ∈ m.entries ∧ e.1 ∉ keys := by
  induction keys generalizing m with
  | nil => simp
  | cons a keys ih =>
    rw [List.foldl_cons, ih]
    simp [OrderedMap.delete, and_assoc]

theorem notMem_entries_pruneEntries {f : σ → OrderedMap α β} {delete : α → σ → σ}
    (h : ∀ a s, f (delete a s) = (f s).delete a) {s : σ} {e : α × β} (he : e ∈ (f s).entries) :
    e ∉ (f (stateOf ((pruneEntries prunable delete (f s).entries).run s))).entries ↔
      e ∈ droppedEntries prunable (f s).entries := by
  have hmap (keys : List α) : f (keys.foldl (fun s a => delete a s) s)
      = keys.foldl (·.delete ·) (f s) :=
    (List.foldl_hom f fun s a => (h a s).symm).symm
  rw [stateOf_pruneEntries, hmap, OrderedMap.mem_entries_foldl_delete, not_and, not_not]
  constructor
  · intro h
    obtain ⟨d, hd, hkey⟩ := List.mem_map.mp (h he)
    have hmem : d ∈ (f s).entries :=
      (List.takeWhile_sublist _).subset (List.mem_filter.mp hd).1
    rwa [← List.inj_on_of_nodup_map (f s).nodup hmem he hkey]
  · intro h _
    exact List.mem_map_of_mem h

end

end Lodestar.Base
