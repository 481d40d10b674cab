import Std.Data.TreeMap.Lemmas
import Mathlib.Tactic

/-!
# Values by key

A repository as the values it holds by key, a key-value store whose keys are
numbers, and scans between bounds. A read names a range of keys, an order and a
limit, and gets what is there in the order of the keys.
-/

namespace Lodestar.Base

open Std (TreeMap LawfulEqCmp)

/-- The range, order and number of the entries to read. -/
structure FilterOptions where
  gt : Option Nat := none
  gte : Option Nat := none
  lt : Option Nat := none
  lte : Option Nat := none
  reverse : Bool := false
  limit : Option Nat := none

namespace FilterOptions

/-- `gt` is used before `gte`, and `lt` before `lte`. -/
def contains (opts : FilterOptions) (key : Nat) : Bool :=
  (match opts.gt with
    | some gt => decide (gt < key)
    | none => opts.gte.all (· ≤ key)) &&
  match opts.lt with
    | some lt => decide (key < lt)
    | none => opts.lte.all (key ≤ ·)

end FilterOptions

abbrev KeyValues (α : Type) := TreeMap Nat α

namespace KeyValues

variable {α β : Type} (m : KeyValues α)

def entries (opts : FilterOptions) : List (Nat × α) :=
  let inRange := m.toList.filter fun entry => opts.contains entry.1
  let ordered := if opts.reverse then inRange.reverse else inRange
  opts.limit.elim ordered ordered.take

def keys (opts : FilterOptions) : List Nat := (m.entries opts).map (·.1)

def values (opts : FilterOptions) : List α := (m.entries opts).map (·.2)

def lastKey : Option Nat := (m.keys { limit := some 1, reverse := true }).head?

def batchDelete (keys : List Nat) : KeyValues α := keys.foldl TreeMap.erase m

/-! ## Reading -/

variable {m}

theorem pairwise_toList : m.toList.Pairwise fun a b => a.1 < b.1 := by
  have h := TreeMap.ordered_keys_toList (t := m)
  exact h.imp fun h => compare_lt_iff_lt.mp h

theorem mem_toList {key : Nat} {value : α} : (key, value) ∈ m.toList ↔ m[key]? = some value :=
  TreeMap.mem_toList_iff_getElem?_eq_some

theorem entries_eq (m : KeyValues α) {opts : FilterOptions} (hreverse : opts.reverse = false)
    (hlimit : opts.limit = none) :
    m.entries opts = m.toList.filter fun entry => opts.contains entry.1 := by
  unfold entries
  rw [hreverse, hlimit]
  rfl

theorem mem_keys {opts : FilterOptions} (hreverse : opts.reverse = false)
    (hlimit : opts.limit = none) {key : Nat} :
    key ∈ m.keys opts ↔ key ∈ m ∧ opts.contains key = true := by
  rw [keys, entries_eq m hreverse hlimit, List.mem_map]
  constructor
  · rintro ⟨⟨key', value⟩, hmem, rfl⟩
    obtain ⟨hmem, hcontains⟩ := List.mem_filter.mp hmem
    refine ⟨?_, hcontains⟩
    rw [TreeMap.mem_iff_isSome_getElem?, mem_toList.mp hmem]
    rfl
  · rintro ⟨hmem, hcontains⟩
    rw [TreeMap.mem_iff_isSome_getElem?] at hmem
    obtain ⟨value, hvalue⟩ := Option.isSome_iff_exists.mp hmem
    exact ⟨(key, value), List.mem_filter.mpr ⟨mem_toList.mpr hvalue, hcontains⟩, rfl⟩

theorem pairwise_keys {opts : FilterOptions} (hreverse : opts.reverse = false)
    (hlimit : opts.limit = none) : (m.keys opts).Pairwise (· < ·) := by
  rw [keys, entries_eq m hreverse hlimit, List.pairwise_map]
  exact pairwise_toList.sublist List.filter_sublist

theorem keys_eq_range' {start len : Nat}
    (h : (m.keys { gte := some start, lt := some (start + len) }).length = len) :
    m.keys { gte := some start, lt := some (start + len) } = List.range' start len := by
  have hpairwise : (m.keys { gte := some start, lt := some (start + len) }).Pairwise (· < ·) :=
    pairwise_keys rfl rfl
  have hsubset : m.keys { gte := some start, lt := some (start + len) }
      ⊆ List.range' start len := by
    intro key hkey
    have hcontains := ((mem_keys rfl rfl).mp hkey).2
    simp only [FilterOptions.contains, Option.all_some, Bool.and_eq_true, decide_eq_true_eq]
      at hcontains
    rw [List.mem_range'_1]
    exact hcontains
  have hperm := (List.subperm_of_subset (hpairwise.imp ne_of_lt) hsubset).perm_of_length_le
    (by rw [List.length_range', h])
  exact hperm.eq_of_pairwise (fun a b _ _ hab hba => absurd hab (Nat.lt_asymm hba)) hpairwise
    List.pairwise_lt_range'

theorem lastKey_eq (m : KeyValues α) : m.lastKey = m.toList.getLast?.map (·.1) := by
  have hall : (m.toList.filter fun entry => FilterOptions.contains
      { limit := some 1, reverse := true } entry.1) = m.toList :=
    List.filter_eq_self.mpr fun _ _ => rfl
  unfold lastKey keys entries
  rw [hall]
  show ((m.toList.reverse.take 1).map (·.1)).head? = _
  rw [List.head?_map, List.head?_take, if_neg Nat.one_ne_zero, List.head?_reverse]

theorem lastKey_eq_some {key : Nat} (h : m.lastKey = some key) :
    key ∈ m ∧ ∀ other ∈ m, other ≤ key := by
  rw [lastKey_eq, Option.map_eq_some_iff] at h
  obtain ⟨⟨key', value⟩, hlast, rfl⟩ := h
  obtain ⟨init, hinit⟩ := List.getLast?_eq_some_iff.mp hlast
  have hpairwise := pairwise_toList (m := m)
  rw [hinit, List.pairwise_append] at hpairwise
  constructor
  · rw [TreeMap.mem_iff_isSome_getElem?, mem_toList.mp (List.mem_of_getLast? hlast)]
    rfl
  · intro other hother
    rw [TreeMap.mem_iff_isSome_getElem?] at hother
    obtain ⟨value', hvalue⟩ := Option.isSome_iff_exists.mp hother
    have hmem := mem_toList.mpr hvalue
    rw [hinit] at hmem
    rcases List.mem_append.mp hmem with hmem | hmem
    · exact (hpairwise.2.2 _ hmem _ List.mem_cons_self).le
    · rw [List.mem_singleton] at hmem
      exact (congrArg Prod.fst hmem).le

theorem lastKey_eq_none (h : m.lastKey = none) (key : Nat) : key ∉ m := by
  rw [lastKey_eq, Option.map_eq_none_iff, List.getLast?_eq_none_iff] at h
  rw [TreeMap.mem_iff_isSome_getElem?, Option.isSome_iff_exists]
  rintro ⟨value, hvalue⟩
  have hmem := mem_toList.mpr hvalue
  rw [h] at hmem
  exact absurd hmem List.not_mem_nil

theorem mem_batchDelete {keys : List Nat} {key : Nat} :
    key ∈ m.batchDelete keys ↔ key ∈ m ∧ key ∉ keys := by
  induction keys generalizing m with
  | nil => simp [batchDelete]
  | cons deleted keys ih =>
    show key ∈ batchDelete (m.erase deleted) keys ↔ _
    rw [ih, TreeMap.mem_erase, List.mem_cons]
    simp only [ne_eq, LawfulEqCmp.compare_eq_iff_eq]
    tauto

end KeyValues

/-! ## Scans of a sorted list between bounds

The entries of a list whose keys are between bounds, from either end and up to a number. A scan
commutes with an embedding of the keys. -/

section

variable {κ κ' β : Type}

structure IFilterOptions (κ : Type) where
  gt : Option κ := none
  gte : Option κ := none
  lt : Option κ := none
  lte : Option κ := none
  reverse : Bool := false
  limit : Option Nat := none

namespace IFilterOptions

section

variable [Ord κ]

def inRange (opts : IFilterOptions κ) (key : κ) : Bool :=
  opts.gt.all (fun bound => (compare bound key).isLT) &&
    opts.gte.all (fun bound => (compare bound key).isLE) &&
    opts.lt.all (fun bound => (compare key bound).isLT) &&
    opts.lte.all fun bound => (compare key bound).isLE

/-- Without the limit. -/
def between (opts : IFilterOptions κ) (entries : List (κ × β)) : List (κ × β) :=
  let entries := entries.filter (opts.inRange ·.1)
  if opts.reverse then entries.reverse else entries

def scan (opts : IFilterOptions κ) (entries : List (κ × β)) : List (κ × β) :=
  match opts.limit with
  | none => opts.between entries
  | some limit => (opts.between entries).take limit

end

variable [Ord κ] [Ord κ'] {opts : IFilterOptions κ} {opts' : IFilterOptions κ'}
  {entries : List (κ × β)} {key : κ}

theorem between_filter {p : κ → Bool} (h : ∀ key, p key = false → opts.inRange key = false) :
    opts.between (entries.filter (p ·.1)) = opts.between entries := by
  have hfilter : (entries.filter (p ·.1)).filter (opts.inRange ·.1) =
      entries.filter (opts.inRange ·.1) := by
    rw [List.filter_filter]
    refine List.filter_congr fun e _ => ?_
    cases hp : p e.1 with
    | false => rw [h e.1 hp, Bool.false_and]
    | true => rw [Bool.and_true]
  unfold between
  rw [hfilter]

theorem between_map {f : κ → κ'} (hreverse : opts'.reverse = opts.reverse)
    (h : ∀ e ∈ entries, opts'.inRange (f e.1) = opts.inRange e.1) :
    opts'.between (entries.map fun e => (f e.1, e.2)) =
      (opts.between entries).map fun e => (f e.1, e.2) := by
  have hfilter : (entries.map fun e => (f e.1, e.2)).filter (opts'.inRange ·.1) =
      (entries.filter (opts.inRange ·.1)).map fun e => (f e.1, e.2) := by
    rw [List.filter_map]
    congr 1
    exact List.filter_congr h
  unfold between
  rw [hfilter, hreverse]
  split_ifs
  · exact List.map_reverse.symm
  · rfl

end IFilterOptions

end

/-! ## Repositories -/

abbrev Repository (α β : Type) : Type := α → Option β

namespace Repository

variable {α β : Type} {a b : α} {v w : β} {db : Repository α β} {keys : List α}

def empty : Repository α β := fun _ => none

def has (db : Repository α β) (a : α) : Bool := (db a).isSome

section

variable [DecidableEq α]

def put (db : Repository α β) (a : α) (v : β) : Repository α β :=
  Function.update db a (some v)

def batchDelete (db : Repository α β) (keys : List α) : Repository α β :=
  fun a => if a ∈ keys then none else db a

@[simp] theorem put_self : db.put a v a = some v := Function.update_self ..

theorem put_of_ne (h : b ≠ a) : db.put a v b = db b := Function.update_of_ne h _ _

theorem put_eq_some (h : db.put a v b = some w) : b = a ∧ w = v ∨ b ≠ a ∧ db b = some w := by
  by_cases hb : b = a
  · rw [hb, put_self] at h
    exact .inl ⟨hb, (Option.some.inj h).symm⟩
  · rw [put_of_ne hb] at h
    exact .inr ⟨hb, h⟩

theorem has_put_of_has (h : db.has b = true) : (db.put a v).has b = true := by
  by_cases hb : b = a
  · rw [has, hb, put_self]
    rfl
  · rw [has, put_of_ne hb]
    exact h

theorem batchDelete_of_notMem (h : a ∉ keys) : db.batchDelete keys a = db a := if_neg h

theorem batchDelete_of_mem (h : a ∈ keys) : db.batchDelete keys a = none := if_pos h

theorem batchDelete_eq_some (h : db.batchDelete keys a = some v) : a ∉ keys ∧ db a = some v := by
  by_cases hk : a ∈ keys
  · rw [batchDelete_of_mem hk] at h
    cases h
  · rw [batchDelete_of_notMem hk] at h
    exact ⟨hk, h⟩

end

end Repository

end Lodestar.Base
