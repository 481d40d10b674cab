import Lodestar.Base.KeyValues
import Mathlib.Tactic

/-!
# Calls that write to a store

A call issues writes to a store, which take effect in any order, and resolves
when those are complete that it waits for. A key holds what the last call on it
writes, once no write of the call to the key is under way, if a call is made
only when no earlier one is under way on its keys.
-/

namespace Lodestar.Base

/-- Keys and their values in one write, `none` to delete. -/
abbrev Write (κ υ : Type) : Type := List (κ × Option υ)

/-- The writes that a call issues, and whether it waits for them. -/
abbrev WriteCall (κ υ : Type) : Type := List (Bool × Write κ υ)

namespace WriteCall

variable {κ υ : Type}

def assignments (call : WriteCall κ υ) : List (κ × Option υ) := call.flatMap (·.2)

def keys (call : WriteCall κ υ) : List κ := call.assignments.map (·.1)

/-- The call sets no key to two values. -/
def SingleValued (call : WriteCall κ υ) : Prop :=
  ∀ k v v', (k, v) ∈ call.assignments → (k, v') ∈ call.assignments → v = v'

theorem mem_keys_of_mem {call : WriteCall κ υ} {p : Bool × Write κ υ} {k : κ} {v : Option υ}
    (hp : p ∈ call) (hk : (k, v) ∈ p.2) : k ∈ call.keys :=
  List.mem_map.2 ⟨(k, v), List.mem_flatMap.2 ⟨p, hp, hk⟩, rfl⟩

theorem exists_of_mem_keys {call : WriteCall κ υ} {k : κ} (h : k ∈ call.keys) :
    ∃ p ∈ call, ∃ v, (k, v) ∈ p.2 := by
  obtain ⟨⟨k, v⟩, hmem, rfl⟩ := List.mem_map.1 h
  obtain ⟨p, hp, hk⟩ := List.mem_flatMap.1 hmem
  exact ⟨p, hp, v, hk⟩

theorem keys_subset {call call' : WriteCall κ υ} (h : ∀ p ∈ call, p ∈ call') :
    ∀ k ∈ call.keys, k ∈ call'.keys := by
  intro k hk
  obtain ⟨p, hp, v, hv⟩ := exists_of_mem_keys hk
  exact mem_keys_of_mem (h p hp) hv

end WriteCall

/-- A call that was made, with its writes under way. -/
structure IssuedCall (ι κ υ : Type) where
  call : ι
  pending : WriteCall κ υ
  resolved : Bool

structure WriteState (ι κ υ : Type) where
  store : Repository κ υ
  calls : List (IssuedCall ι κ υ)

inductive WriteEvent (ι : Type) where
  | issue (call : ι)
  /-- The write at `k` among those under way of call `i` takes effect. -/
  | complete (i k : Nat)
  | resolve (i : Nat)

section

variable {ι κ υ : Type} [DecidableEq κ]

def Write.apply (w : Write κ υ) (store : Repository κ υ) : Repository κ υ :=
  w.foldl (fun store p => Function.update store p.1 p.2) store

theorem Write.apply_of_notMem {w : Write κ υ} {k : κ} (h : ∀ v, (k, v) ∉ w)
    (store : Repository κ υ) : w.apply store k = store k := by
  induction w generalizing store with
  | nil => rfl
  | cons p w ih =>
    have hne : k ≠ p.1 := fun heq => h p.2 (heq ▸ List.mem_cons_self)
    exact (ih (fun v hv => h v (List.mem_cons_of_mem _ hv)) _).trans
      (Function.update_of_ne hne _ _)

theorem Write.apply_of_mem {w : Write κ υ} {k : κ} {v : Option υ} (hmem : (k, v) ∈ w)
    (hone : ∀ v', (k, v') ∈ w → v' = v) (store : Repository κ υ) : w.apply store k = v := by
  induction w generalizing store with
  | nil => cases hmem
  | cons p w ih =>
    by_cases hlater : ∃ v', (k, v') ∈ w
    · obtain ⟨v', hv'⟩ := hlater
      obtain rfl := hone v' (List.mem_cons_of_mem _ hv')
      exact ih hv' (fun v' h => hone v' (List.mem_cons_of_mem _ h)) _
    · -- the first assignment is the only one
      have hrest := Write.apply_of_notMem (fun v' hv' => hlater ⟨v', hv'⟩)
        (Function.update store p.1 p.2)
      rcases List.mem_cons.1 hmem with rfl | hmem
      · exact hrest.trans (Function.update_self ..)
      · exact (hlater ⟨v, hmem⟩).elim

namespace WriteState

variable (writes : ι → WriteCall κ υ)

def step (s : WriteState ι κ υ) : WriteEvent ι → Option (WriteState ι κ υ)
  | .issue call => some { s with calls := s.calls ++ [⟨call, writes call, false⟩] }
  | .complete i k => do
    let issued ← s.calls[i]?
    let (_, w) ← issued.pending[k]?
    return {
      store := w.apply s.store
      calls := s.calls.set i { issued with pending := issued.pending.eraseIdx k } }
  | .resolve i => do
    let issued ← s.calls[i]?
    if issued.pending.any (·.1) then none
    else some { s with calls := s.calls.set i { issued with resolved := true } }

/-- A call is made only when no write to one of its keys is under way. -/
def Orderly (s : WriteState ι κ υ) : WriteEvent ι → Prop
  | .issue call => ∀ issued ∈ s.calls, ∀ k ∈ (writes call).keys, k ∉ issued.pending.keys
  | _ => True

/-- What holds of the calls and the store after orderly steps. -/
structure Ordered (s : WriteState ι κ υ) : Prop where
  pending : ∀ (i : Nat) issued, s.calls[i]? = some issued →
    ∀ p ∈ issued.pending, p ∈ writes issued.call
  earlier : ∀ (i j : Nat) issued later, i < j → s.calls[i]? = some issued → s.calls[j]? = some later →
    ∀ k ∈ (writes later.call).keys, k ∉ issued.pending.keys
  value : ∀ (i : Nat) issued, s.calls[i]? = some issued → (writes issued.call).SingleValued →
    ∀ k v, (k, v) ∈ (writes issued.call).assignments → k ∉ issued.pending.keys →
      (∀ (j : Nat) later, i < j → s.calls[j]? = some later → k ∉ (writes later.call).keys) →
      s.store k = v

variable {writes}

theorem Ordered.start (store : Repository κ υ) :
    Ordered writes (⟨store, []⟩ : WriteState ι κ υ) := by
  refine ⟨?_, ?_, ?_⟩
  · intro i issued h
    cases h
  · intro i j issued later _ h
    cases h
  · intro i issued h
    cases h

variable {s s' : WriteState ι κ υ}

theorem Ordered.issue (h : Ordered writes s) {call : ι}
    (horderly : Orderly writes s (.issue call)) :
    Ordered writes { s with calls := s.calls ++ [⟨call, writes call, false⟩] } := by
  -- a call in the new list is one of before, or the new one and the last
  have hget : ∀ {i : Nat} {issued : IssuedCall ι κ υ},
      (s.calls ++ [⟨call, writes call, false⟩])[i]? = some issued →
      s.calls[i]? = some issued ∨ i = s.calls.length ∧ issued = ⟨call, writes call, false⟩ := by
    intro i issued hi
    rcases lt_or_ge i s.calls.length with hlt | hge
    · rw [List.getElem?_append_left hlt] at hi
      exact .inl hi
    · rw [List.getElem?_append_right hge] at hi
      obtain ⟨hlt, rfl⟩ := List.getElem?_eq_some_iff.1 hi
      simp only [List.length_singleton, Nat.lt_one_iff] at hlt
      exact .inr ⟨by omega, by simp⟩
  have hold : ∀ {i : Nat} {issued : IssuedCall ι κ υ}, s.calls[i]? = some issued →
      (s.calls ++ [⟨call, writes call, false⟩])[i]? = some issued ∧ i < s.calls.length := by
    intro i issued hi
    obtain ⟨hlt, rfl⟩ := List.getElem?_eq_some_iff.1 hi
    exact ⟨by rw [List.getElem?_append_left hlt, hi], hlt⟩
  refine ⟨fun i issued hi p hp => ?_, fun i j issued later hij hi hj k hk => ?_,
    fun i issued hi hsingle k v hkv hk hlast => ?_⟩
  · rcases hget hi with hi | ⟨-, rfl⟩
    · exact h.pending i issued hi p hp
    · exact hp
  · rcases hget hj with hj | ⟨rfl, rfl⟩
    · rcases hget hi with hi | ⟨rfl, -⟩
      · exact h.earlier i j issued later hij hi hj k hk
      · exact absurd (hold hj).2 (by omega)
    · rcases hget hi with hi | ⟨rfl, -⟩
      · exact horderly issued (List.mem_of_getElem? hi) k hk
      · omega
  · rcases hget hi with hi | ⟨-, rfl⟩
    · refine h.value i issued hi hsingle k v hkv hk fun j later hij hj => ?_
      exact hlast j later hij (hold hj).1
    · -- its own writes are all under way
      exact absurd (List.mem_map.2 ⟨(k, v), hkv, rfl⟩) hk

/-- Calls that keep what they are and whose writes under way are some of those before. -/
theorem getElem?_set_of_same {i j : Nat} {issued c : IssuedCall ι κ υ}
    (issued' : IssuedCall ι κ υ) (hi : s.calls[i]? = some issued) (hcall : issued'.call = issued.call)
    (hpending : ∀ p ∈ issued'.pending, p ∈ issued.pending)
    (hj : (s.calls.set i issued')[j]? = some c) :
    ∃ c', s.calls[j]? = some c' ∧ c.call = c'.call ∧ (∀ p ∈ c.pending, p ∈ c'.pending) ∧
      (j ≠ i → c = c') ∧ (j = i → c = issued' ∧ c' = issued) := by
  by_cases hij : j = i
  · subst hij
    obtain ⟨hlt, -⟩ := List.getElem?_eq_some_iff.1 hi
    rw [List.getElem?_set_self hlt] at hj
    obtain rfl := Option.some.inj hj
    exact ⟨issued, hi, hcall, hpending, fun hne => (hne rfl).elim, fun _ => ⟨rfl, rfl⟩⟩
  · rw [List.getElem?_set_ne (Ne.symm hij)] at hj
    exact ⟨c, hj, rfl, fun p hp => hp, fun _ => rfl, fun heq => (hij heq).elim⟩

theorem getElem?_set_call {i j : Nat} {issued issued' c : IssuedCall ι κ υ}
    (hi : s.calls[i]? = some issued) (hcall : issued'.call = issued.call)
    (hj : s.calls[j]? = some c) :
    ∃ c', (s.calls.set i issued')[j]? = some c' ∧ c'.call = c.call := by
  by_cases hij : j = i
  · subst hij
    obtain ⟨hlt, -⟩ := List.getElem?_eq_some_iff.1 hi
    rw [hi] at hj
    obtain rfl := Option.some.inj hj
    exact ⟨issued', List.getElem?_set_self hlt, hcall⟩
  · exact ⟨c, by rw [List.getElem?_set_ne (Ne.symm hij), hj], rfl⟩

/-- A step that replaces call `i`, with fewer writes under way: it remains to give the values. -/
theorem Ordered.set (h : Ordered writes s) {i : Nat} {issued : IssuedCall ι κ υ}
    (issued' : IssuedCall ι κ υ) (hi : s.calls[i]? = some issued) (hcall : issued'.call = issued.call)
    (hpending : ∀ p ∈ issued'.pending, p ∈ issued.pending) {store : Repository κ υ}
    (hother : ∀ (m : Nat) c, m ≠ i → s.calls[m]? = some c →
      ∀ k ∈ (writes c.call).keys, (∀ (j : Nat) later, m < j → s.calls[j]? = some later →
        k ∉ (writes later.call).keys) → store k = s.store k)
    (hself : ∀ k v, (writes issued.call).SingleValued → (k, v) ∈ (writes issued.call).assignments →
      k ∉ issued'.pending.keys → (k ∉ issued.pending.keys → s.store k = v) → store k = v) :
    Ordered writes ⟨store, s.calls.set i issued'⟩ := by
  refine ⟨fun m c hm p hp => ?_, fun m j c later hmj hm hj k hk => ?_,
    fun m c hm hsingle k v hkv hk hlast => ?_⟩
  · obtain ⟨c', hm', hc, hsub, -, -⟩ := getElem?_set_of_same issued' hi hcall hpending hm
    rw [hc]
    exact h.pending m c' hm' p (hsub p hp)
  · obtain ⟨c', hm', -, hsub, -, -⟩ := getElem?_set_of_same issued' hi hcall hpending hm
    obtain ⟨later', hj', hlater, -, -, -⟩ := getElem?_set_of_same issued' hi hcall hpending hj
    rw [hlater] at hk
    exact fun hin => h.earlier m j c' later' hmj hm' hj' k hk (WriteCall.keys_subset hsub k hin)
  · obtain ⟨c', hm', hc, -, hne, heq⟩ := getElem?_set_of_same issued' hi hcall hpending hm
    rw [hc] at hsingle hkv
    have hlast' : ∀ (j : Nat) later, m < j → s.calls[j]? = some later →
        k ∉ (writes later.call).keys := by
      intro j later hmj hj
      obtain ⟨later', hj', hlater⟩ := getElem?_set_call hi hcall hj
      exact hlater ▸ hlast j later' hmj hj'
    by_cases hmi : m = i
    · obtain ⟨rfl, rfl⟩ := heq hmi
      exact hself k v hsingle hkv hk fun hnot => h.value m c' hm' hsingle k v hkv hnot hlast'
    · obtain rfl := hne hmi
      show store k = v
      rw [hother m c hmi hm' k (List.mem_map.2 ⟨_, hkv, rfl⟩) hlast']
      exact h.value m c hm' hsingle k v hkv hk hlast'

theorem Ordered.complete (h : Ordered writes s) {i n : Nat} {issued : IssuedCall ι κ υ}
    {awaited : Bool} {w : Write κ υ} (hi : s.calls[i]? = some issued)
    (hw : issued.pending[n]? = some (awaited, w)) :
    Ordered writes ⟨w.apply s.store,
      s.calls.set i { issued with pending := issued.pending.eraseIdx n }⟩ := by
  have hmem : (awaited, w) ∈ issued.pending := List.mem_of_getElem? hw
  refine h.set { issued with pending := issued.pending.eraseIdx n } hi rfl
    (fun p hp => List.mem_of_mem_eraseIdx hp) (fun m c hmi hm k hk hlast => ?_)
    fun k v hsingle hkv hk hbefore => ?_
  · -- the write is to a key under way of call `i`, which no other call here is on
    refine Write.apply_of_notMem (fun v hv => ?_) _
    have hkey : k ∈ issued.pending.keys := WriteCall.mem_keys_of_mem hmem hv
    rcases Nat.lt_or_gt_of_ne hmi with hlt | hgt
    · exact hlast i issued hlt hi (WriteCall.keys_subset (h.pending i issued hi) k hkey)
    · exact h.earlier i m issued c hgt hi hm k hk hkey
  · by_cases hset : ∃ v', (k, v') ∈ w
    · obtain ⟨v', hv'⟩ := hset
      have hone : ∀ u, (k, u) ∈ w → u = v := fun u hu =>
        hsingle k u v (List.mem_flatMap.2 ⟨_, h.pending i issued hi _ hmem, hu⟩) hkv
      obtain rfl := hone v' hv'
      exact Write.apply_of_mem hv' hone _
    · rw [Write.apply_of_notMem (fun v' hv' => hset ⟨v', hv'⟩)]
      refine hbefore fun hin => ?_
      obtain ⟨p, hp, v', hv'⟩ := WriteCall.exists_of_mem_keys hin
      obtain ⟨hlt, hget⟩ := List.getElem?_eq_some_iff.1 hw
      rcases List.mem_cons.1 ((List.getElem_cons_eraseIdx_perm hlt).mem_iff.2 hp) with rfl | hp
      · rw [hget] at hv'
        exact hset ⟨v', hv'⟩
      · exact hk (WriteCall.mem_keys_of_mem hp hv')

theorem Ordered.step (h : Ordered writes s) {e : WriteEvent ι} (horderly : Orderly writes s e)
    (hstep : s.step writes e = some s') : Ordered writes s' := by
  cases e with
  | issue call =>
    obtain rfl := Option.some.inj hstep
    exact h.issue horderly
  | complete i n =>
    unfold WriteState.step at hstep
    simp only [Option.bind_eq_bind, Option.bind_eq_some_iff, Option.pure_def,
      Option.some.injEq] at hstep
    obtain ⟨issued, hi, ⟨awaited, w⟩, hw, rfl⟩ := hstep
    exact h.complete hi hw
  | resolve i =>
    unfold WriteState.step at hstep
    simp only [Option.bind_eq_bind, Option.bind_eq_some_iff] at hstep
    obtain ⟨issued, hi, hstep⟩ := hstep
    split_ifs at hstep
    obtain rfl := Option.some.inj hstep
    exact h.set { issued with resolved := true } hi rfl (fun p hp => hp) (fun _ _ _ _ _ _ _ => rfl)
      fun k v _ _ hk hbefore => hbefore hk

end WriteState

end

end Lodestar.Base
