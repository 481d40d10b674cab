import Mathlib.Data.List.Nodup

/-!
# Maps that keep the order of insertion

`OrderedMap` is the `Map` of JavaScript: `set` replaces the value of a key where
it stands and puts a new key last. `pruneToMax` drops the keys that came first.
-/

namespace Lodestar.Base

structure OrderedMap (α β : Type) where
  entries : List (α × β)
  nodup : (entries.map Prod.fst).Nodup

namespace OrderedMap

variable {α β : Type} {a b : α} {v w : β} {m : OrderedMap α β}

def empty : OrderedMap α β := ⟨[], List.nodup_nil⟩

def size (m : OrderedMap α β) : Nat := m.entries.length

def keys (m : OrderedMap α β) : List α := m.entries.map Prod.fst

def values (m : OrderedMap α β) : List β := m.entries.map Prod.snd

/-- Only the last keys, `max` of them. -/
def pruneToMax (m : OrderedMap α β) (max : Nat) : OrderedMap α β where
  entries := m.entries.drop (m.size - max)
  nodup := m.nodup.sublist ((List.drop_sublist _ _).map _)

theorem keys_pruneToMax (m : OrderedMap α β) (max : Nat) :
    (m.pruneToMax max).keys = m.keys.drop (m.keys.length - max) := by
  unfold keys pruneToMax size
  rw [List.map_drop, List.length_map]

theorem pruneToMax_of_size_le {m : OrderedMap α β} {max : Nat} (h : m.size ≤ max) :
    m.pruneToMax max = m := by
  unfold pruneToMax
  simp only [Nat.sub_eq_zero_of_le h, List.drop_zero]

variable [DecidableEq α]

def get (m : OrderedMap α β) (a : α) : Option β :=
  (m.entries.find? (·.1 = a)).map Prod.snd

def has (m : OrderedMap α β) (a : α) : Bool := (m.get a).isSome

/-- The entries with `v` for the key `a`, at its place. -/
def replaced (l : List (α × β)) (a : α) (v : β) : List (α × β) :=
  l.map fun e => if e.1 = a then (a, v) else e

theorem map_fst_replaced (l : List (α × β)) : (replaced l a v).map Prod.fst = l.map Prod.fst := by
  rw [replaced, List.map_map]
  apply List.map_congr_left
  intro e _
  show (if e.1 = a then (a, v) else e).1 = e.1
  split_ifs with h
  · exact h.symm
  · rfl

theorem get_eq_none_iff : m.get a = none ↔ a ∉ m.keys := by
  simp only [get, keys, Option.map_eq_none_iff, List.find?_eq_none, decide_eq_true_eq]
  rw [List.mem_map]
  constructor
  · rintro h ⟨e, he, hea⟩
    exact h e he hea
  · intro h e he hea
    exact h ⟨e, he, hea⟩

theorem mem_keys_iff : a ∈ m.keys ↔ m.get a ≠ none := by
  rw [ne_eq, get_eq_none_iff, not_not]

def set (m : OrderedMap α β) (a : α) (v : β) : OrderedMap α β :=
  if h : a ∈ m.keys then ⟨replaced m.entries a v, by rw [map_fst_replaced]; exact m.nodup⟩
  else ⟨m.entries ++ [(a, v)], by
    rw [List.map_append]
    exact List.Nodup.append m.nodup (List.nodup_singleton a) (by simpa [keys] using h)⟩

theorem keys_set : (m.set a v).keys = if a ∈ m.keys then m.keys else m.keys ++ [a] := by
  unfold set
  split_ifs with h
  · exact map_fst_replaced _
  · exact List.map_append

theorem mem_entries_set {e : α × β} (h : e ∈ (m.set a v).entries) : e = (a, v) ∨ e ∈ m.entries := by
  unfold set at h
  split_ifs at h with hk
  · obtain ⟨d, hd, rfl⟩ := List.mem_map.mp h
    split_ifs
    · exact .inl rfl
    · exact .inr hd
  · rcases List.mem_append.mp h with h | h
    · exact .inr h
    · exact .inl (List.mem_singleton.mp h)

theorem mem_values_set (h : w ∈ (m.set a v).values) : w = v ∨ w ∈ m.values := by
  obtain ⟨e, he, rfl⟩ := List.mem_map.mp h
  rcases mem_entries_set he with rfl | he
  · exact .inl rfl
  · exact .inr (List.mem_map.mpr ⟨e, he, rfl⟩)

def delete (m : OrderedMap α β) (a : α) : OrderedMap α β where
  entries := m.entries.filter (·.1 ≠ a)
  nodup := m.nodup.sublist ((List.filter_sublist).map _)

/-! ## Reads -/

@[simp] theorem get_empty : (empty : OrderedMap α β).get a = none := rfl

theorem get_getD_empty (o : Option (OrderedMap α β)) (a : α) :
    (o.getD .empty).get a = o.bind (·.get a) := by
  cases o <;> rfl

theorem get_eq_some_iff : m.get a = some v ↔ (a, v) ∈ m.entries := by
  rw [get, Option.map_eq_some_iff]
  constructor
  · rintro ⟨⟨b, w⟩, hf, rfl⟩
    have hb : b = a := by simpa using List.find?_some hf
    exact hb ▸ List.mem_of_find?_eq_some hf
  · intro h
    cases hf : m.entries.find? (·.1 = a) with
    | none => exact absurd (List.find?_eq_none.mp hf _ h) (by simp)
    | some e =>
      have he : e.1 = a := by simpa using List.find?_some hf
      have : e = (a, v) :=
        List.inj_on_of_nodup_map m.nodup (List.mem_of_find?_eq_some hf) h he
      exact ⟨e, rfl, by rw [this]⟩

theorem find?_replaced_self (l : List (α × β)) (h : a ∈ l.map Prod.fst) :
    (replaced l a v).find? (·.1 = a) = some (a, v) := by
  induction l with
  | nil => exact absurd h List.not_mem_nil
  | cons e l ih =>
    by_cases he : e.1 = a
    · simp [replaced, he]
    · have hl : a ∈ l.map Prod.fst := (List.mem_cons.mp h).resolve_left (Ne.symm he)
      simpa [replaced, he] using ih hl

theorem find?_replaced_of_ne (l : List (α × β)) (h : b ≠ a) :
    (replaced l a v).find? (·.1 = b) = l.find? (·.1 = b) := by
  induction l with
  | nil => rfl
  | cons e l ih =>
    by_cases he : e.1 = a
    · have hb : ¬ e.1 = b := fun hb => h (hb ▸ he)
      simpa [replaced, he, hb, Ne.symm h] using ih
    · by_cases hb : e.1 = b
      · simp [replaced, hb, h]
      · simpa [replaced, he, hb] using ih

@[simp] theorem get_set_self : (m.set a v).get a = some v := by
  unfold set
  split_ifs with h
  · rw [get, find?_replaced_self _ h]
    rfl
  · have hn : m.entries.find? (·.1 = a) = none := by
      simpa [get] using get_eq_none_iff.mpr h
    simp [get, List.find?_append, hn]

theorem get_set_of_ne (h : b ≠ a) : (m.set a v).get b = m.get b := by
  unfold set
  split_ifs with hk
  · rw [get, find?_replaced_of_ne _ h]
    rfl
  · simp [get, List.find?_append, Ne.symm h]

theorem get_set : (m.set a v).get b = if b = a then some v else m.get b := by
  split_ifs with h
  · rw [h, get_set_self]
  · exact get_set_of_ne h

theorem isSome_get_set (h : (m.get b).isSome = true) : ((m.set a v).get b).isSome = true := by
  rw [get_set]
  split_ifs
  · rfl
  · exact h

@[simp] theorem get_delete_self : (m.delete a).get a = none := by
  rw [get_eq_none_iff]
  simp [keys, delete]

theorem get_delete_of_ne (h : b ≠ a) : (m.delete a).get b = m.get b := by
  apply Option.ext
  intro v
  rw [get_eq_some_iff, get_eq_some_iff]
  simp [delete, h]

theorem get_delete : (m.delete a).get b = if b = a then none else m.get b := by
  split_ifs with h
  · rw [h, get_delete_self]
  · exact get_delete_of_ne h

/-! ## Entries one after the other -/

variable {γ : Type} {key : γ → α} {val : γ → β} {l : List γ} {c : γ}

theorem get_foldl_delete_of_notMem {l : List α} (h : a ∉ l) :
    (l.foldl (·.delete ·) m).get a = m.get a := by
  induction l generalizing m with
  | nil => rfl
  | cons b l ih =>
    rw [List.mem_cons, not_or] at h
    exact (ih h.2).trans (get_delete_of_ne h.1)

theorem get_foldl_delete_of_mem {l : List α} (h : a ∈ l) : (l.foldl (·.delete ·) m).get a = none := by
  induction l generalizing m with
  | nil => cases h
  | cons b l ih =>
    by_cases hl : a ∈ l
    · exact ih hl
    · obtain rfl := (List.mem_cons.mp h).resolve_right hl
      exact (get_foldl_delete_of_notMem hl).trans get_delete_self

theorem get_of_get_foldl_delete {l : List α} (h : (l.foldl (·.delete ·) m).get a = some v) :
    m.get a = some v := by
  by_cases hl : a ∈ l
  · rw [get_foldl_delete_of_mem hl] at h
    cases h
  · rwa [get_foldl_delete_of_notMem hl] at h

theorem get_foldl_delete_filter (p : α → Bool) :
    ((m.keys.filter p).foldl (·.delete ·) m).get a = if p a then none else m.get a := by
  by_cases hp : p a = true
  · rw [if_pos hp]
    by_cases hkey : a ∈ m.keys
    · exact get_foldl_delete_of_mem (List.mem_filter.2 ⟨hkey, hp⟩)
    · rw [get_foldl_delete_of_notMem fun hmem => hkey (List.mem_filter.1 hmem).1]
      exact get_eq_none_iff.2 hkey
  · rw [if_neg hp]
    exact get_foldl_delete_of_notMem fun hmem => hp (List.mem_filter.1 hmem).2

theorem get_foldl_set_of_ne (h : ∀ c ∈ l, key c ≠ a) :
    (l.foldl (fun m c => m.set (key c) (val c)) m).get a = m.get a := by
  induction l generalizing m with
  | nil => rfl
  | cons c l ih =>
    obtain ⟨hc, hl⟩ := List.forall_mem_cons.mp h
    rw [List.foldl_cons, ih hl, get_set_of_ne (Ne.symm hc)]

theorem get_foldl_set (hc : c ∈ l) (hl : l.Pairwise fun c d => key c ≠ key d) :
    (l.foldl (fun m c => m.set (key c) (val c)) m).get (key c) = some (val c) := by
  induction l generalizing m with
  | nil => exact absurd hc List.not_mem_nil
  | cons d l ih =>
    obtain ⟨hd, hl⟩ := List.pairwise_cons.mp hl
    rw [List.foldl_cons]
    rcases List.mem_cons.mp hc with rfl | hc
    · rw [get_foldl_set_of_ne fun e he => (hd e he).symm, get_set_self]
    · exact ih hc hl

theorem get_foldl_set_empty_eq_some_iff (hl : l.Pairwise fun c d => key c ≠ key d) :
    (l.foldl (fun m c => m.set (key c) (val c)) empty).get a = some v
      ↔ ∃ c ∈ l, key c = a ∧ val c = v := by
  constructor
  · intro h
    by_cases hkey : ∀ c ∈ l, key c ≠ a
    · rw [get_foldl_set_of_ne hkey, get_empty] at h
      cases h
    · push Not at hkey
      obtain ⟨c, hc, rfl⟩ := hkey
      rw [get_foldl_set hc hl] at h
      exact ⟨c, hc, rfl, Option.some.inj h⟩
  · rintro ⟨c, hc, rfl, rfl⟩
    exact get_foldl_set hc hl

theorem get_of_get_pruneToMax {max : Nat} (h : (m.pruneToMax max).get a = some v) :
    m.get a = some v := by
  rw [get_eq_some_iff] at h ⊢
  exact List.mem_of_mem_drop h

end OrderedMap

end Lodestar.Base
