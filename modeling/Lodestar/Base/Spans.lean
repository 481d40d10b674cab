import Mathlib.Data.Set.Insert
import Mathlib.Tactic

/-!
# Nearest and furthest ends of a set of intervals

For a set `H` of intervals `(s, t)`, `Nearest H m` says that `m e` is the
distance from `e` to the nearest end among the intervals that start after `e`,
`Furthest H m` that it is the distance to the furthest end among those with
`e` strictly inside. One entry then decides whether an interval strictly
contains one of `H`, or lies strictly inside one (`Nearest.contains_iff`,
`Furthest.contains_iff`).

Adding an interval improves a run of entries next to its start and can stop at
the first entry it does not improve (`Nearest.insert`, `Furthest.insert`):
the entry that stopped it comes from an interval which is already at least as
good everywhere further on.
-/

namespace Lodestar.Base

/-- `a` strictly contains `b`: it starts before and ends after. -/
def Contains (a b : Nat × Nat) : Prop := a.1 < b.1 ∧ b.2 < a.2

instance (a b : Nat × Nat) : Decidable (Contains a b) := by unfold Contains; infer_instance

/-- No two intervals of `H` contain one another. -/
def Laminar (H : Set (Nat × Nat)) : Prop := ∀ a ∈ H, ∀ b ∈ H, ¬ Contains a b

theorem Laminar.insert {H : Set (Nat × Nat)} (hH : Laminar H) {a : Nat × Nat}
    (h₁ : ∀ b ∈ H, ¬ Contains a b) (h₂ : ∀ b ∈ H, ¬ Contains b a) : Laminar (insert a H) := by
  rintro b (rfl | hb) c (rfl | hc)
  · exact fun h => absurd h.1 (lt_irrefl _)
  · exact h₁ c hc
  · exact h₂ b hb
  · exact hH b hb c hc

structure Nearest (H : Set (Nat × Nat)) (m : Nat → Option Nat) : Prop where
  sound : ∀ {e d}, m e = some d → ∃ a ∈ H, e < a.1 ∧ a.2 = e + d
  least : ∀ {a e}, a ∈ H → e < a.1 → ∃ d, m e = some d ∧ e + d ≤ a.2

structure Furthest (H : Set (Nat × Nat)) (m : Nat → Option Nat) : Prop where
  sound : ∀ {e d}, m e = some d → ∃ a ∈ H, a.1 < e ∧ e < a.2 ∧ a.2 = e + d
  greatest : ∀ {a e}, a ∈ H → a.1 < e → e < a.2 → ∃ d, m e = some d ∧ a.2 ≤ e + d

variable {H : Set (Nat × Nat)} {m m' : Nat → Option Nat} {s t c : Nat}

theorem Nearest.empty : Nearest ∅ fun _ => none where
  sound h := by cases h
  least h := h.elim

theorem Furthest.empty : Furthest ∅ fun _ => none where
  sound h := by cases h
  greatest h := h.elim

theorem eq_of_bounds {r : Nat → Nat → Prop} (hr : ∀ {d d'}, r d d' → r d' d → d = d')
    (h : ∀ {e d}, m e = some d → ∃ d', m' e = some d' ∧ r d d')
    (h' : ∀ {e d}, m' e = some d → ∃ d', m e = some d' ∧ r d d') : m = m' := by
  funext e
  cases hd : m e with
  | some d =>
    obtain ⟨d', hd', hle⟩ := h hd
    obtain ⟨d'', hd'', hle'⟩ := h' hd'
    obtain rfl : d = d'' := Option.some.inj (hd.symm.trans hd'')
    rw [hd', hr hle hle']
  | none =>
    cases hd' : m' e with
    | none => rfl
    | some d' =>
      obtain ⟨d, hd'', -⟩ := h' hd'
      rw [hd] at hd''
      cases hd''

/-- The distances are determined by the intervals. -/
theorem Nearest.unique (h : Nearest H m) (h' : Nearest H m') : m = m' := by
  have hle : ∀ {m m' : Nat → Option Nat}, Nearest H m → Nearest H m' → ∀ {e d}, m e = some d →
      ∃ d', m' e = some d' ∧ d' ≤ d := by
    intro m m' h h' e d hd
    obtain ⟨a, ha, he, heq⟩ := h.sound hd
    obtain ⟨d', hd', hle⟩ := h'.least ha he
    exact ⟨d', hd', by omega⟩
  exact eq_of_bounds (r := (· ≥ ·)) (fun h₁ h₂ => le_antisymm h₂ h₁) (hle h h') (hle h' h)

theorem Furthest.unique (h : Furthest H m) (h' : Furthest H m') : m = m' := by
  have hle : ∀ {m m' : Nat → Option Nat}, Furthest H m → Furthest H m' → ∀ {e d}, m e = some d →
      ∃ d', m' e = some d' ∧ d ≤ d' := by
    intro m m' h h' e d hd
    obtain ⟨a, ha, hs, ht, heq⟩ := h.sound hd
    obtain ⟨d', hd', hle⟩ := h'.greatest ha hs ht
    exact ⟨d', hd', by omega⟩
  exact eq_of_bounds (r := (· ≤ ·)) (fun h₁ h₂ => le_antisymm h₁ h₂) (hle h h') (hle h' h)

theorem Nearest.contains_iff (h : Nearest H m) :
    (∃ b ∈ H, Contains (s, t) b) ↔ ∃ d, m s = some d ∧ s + d < t := by
  constructor
  · rintro ⟨b, hb, hs, ht⟩
    obtain ⟨d, hd, hle⟩ := h.least hb hs
    exact ⟨d, hd, lt_of_le_of_lt hle ht⟩
  · rintro ⟨d, hd, hlt⟩
    obtain ⟨b, hb, hs, ht⟩ := h.sound hd
    exact ⟨b, hb, hs, ht ▸ hlt⟩

theorem Furthest.contains_iff (h : Furthest H m) (hst : s ≤ t) :
    (∃ b ∈ H, Contains b (s, t)) ↔ ∃ d, m s = some d ∧ t < s + d := by
  constructor
  · rintro ⟨b, hb, hs, ht⟩
    obtain ⟨d, hd, hle⟩ := h.greatest hb hs (lt_of_le_of_lt hst ht)
    exact ⟨d, hd, lt_of_lt_of_le ht hle⟩
  · rintro ⟨d, hd, hlt⟩
    obtain ⟨b, hb, hs, -, ht⟩ := h.sound hd
    exact ⟨b, hb, hs, ht ▸ hlt⟩

/-- `m'` is `m` with the entries of `[c, s)` pointing at `t`, where `c` is `0` or the entry before
`c` already points at least as near. -/
structure Nearer (m m' : Nat → Option Nat) (s t c : Nat) : Prop where
  inside : ∀ {e}, c ≤ e → e < s → m' e = some (t - e) ∧ ∀ d ∈ m e, t - e < d
  outside : ∀ {e}, e < c ∨ s ≤ e → m' e = m e
  stop : c = 0 ∨ ∃ d, m (c - 1) = some d ∧ c - 1 + d ≤ t

theorem Nearer.reach (hn : Nearer m m' s t c) (h : Nearest H m) (hst : s ≤ t) {e : Nat}
    (he : e < s) : ∃ d, m' e = some d ∧ e + d ≤ t := by
  by_cases hc : c ≤ e
  · exact ⟨t - e, (hn.inside hc he).1, by omega⟩
  · obtain h0 | ⟨d, hd, hle⟩ := hn.stop
    · omega
    · obtain ⟨a, ha, has, hat⟩ := h.sound hd
      obtain ⟨d', hd', hle'⟩ := h.least ha (show e < a.1 by omega)
      exact ⟨d', by rw [hn.outside (.inl (by omega)), hd'], by omega⟩

theorem Nearest.insert (h : Nearest H m) (hst : s ≤ t) (hn : Nearer m m' s t c) :
    Nearest (insert (s, t) H) m' where
  sound {e d} hd := by
    by_cases hin : c ≤ e ∧ e < s
    · obtain ⟨h₁, -⟩ := hn.inside hin.1 hin.2
      rw [h₁] at hd
      cases hd
      exact ⟨(s, t), Set.mem_insert .., hin.2, by simp only; omega⟩
    · rw [hn.outside (by omega)] at hd
      obtain ⟨a, ha, h'⟩ := h.sound hd
      exact ⟨a, Set.mem_insert_of_mem _ ha, h'⟩
  least {a e} ha he := by
    rcases ha with rfl | ha
    · exact hn.reach h hst he
    · obtain ⟨d, hd, hle⟩ := h.least ha he
      by_cases hin : c ≤ e ∧ e < s
      · obtain ⟨h₁, h₂⟩ := hn.inside hin.1 hin.2
        have := h₂ d hd
        exact ⟨t - e, h₁, by omega⟩
      · exact ⟨d, by rw [hn.outside (by omega), hd], hle⟩

/-- `m'` is `m` with the entries of `(s, c)` pointing at `t`, where `c` is `t` or past it, or its
entry already points at least as far. -/
structure Further (m m' : Nat → Option Nat) (s t c : Nat) : Prop where
  inside : ∀ {e}, s < e → e < c → m' e = some (t - e) ∧ ∀ d ∈ m e, d < t - e
  outside : ∀ {e}, e ≤ s ∨ c ≤ e → m' e = m e
  stop : t ≤ c ∨ ∃ d, m c = some d ∧ t ≤ c + d
  le : c ≤ max t (s + 1)

theorem Further.reach (hf : Further m m' s t c) (h : Furthest H m) {e : Nat} (hs : s < e)
    (ht : e < t) : ∃ d, m' e = some d ∧ t ≤ e + d := by
  by_cases hc : e < c
  · exact ⟨t - e, (hf.inside hs hc).1, by omega⟩
  · obtain h0 | ⟨d, hd, hle⟩ := hf.stop
    · omega
    · obtain ⟨a, ha, has, hac, hat⟩ := h.sound hd
      obtain ⟨d', hd', hle'⟩ := h.greatest ha (show a.1 < e by omega) (by omega)
      exact ⟨d', by rw [hf.outside (.inr (by omega)), hd'], by omega⟩

theorem Furthest.insert (h : Furthest H m) (hf : Further m m' s t c) :
    Furthest (insert (s, t) H) m' where
  sound {e d} hd := by
    by_cases hin : s < e ∧ e < c
    · obtain ⟨h₁, -⟩ := hf.inside hin.1 hin.2
      rw [h₁] at hd
      cases hd
      have := hf.le
      exact ⟨(s, t), Set.mem_insert .., hin.1, by simp only; omega, by simp only; omega⟩
    · rw [hf.outside (by omega)] at hd
      obtain ⟨a, ha, h'⟩ := h.sound hd
      exact ⟨a, Set.mem_insert_of_mem _ ha, h'⟩
  greatest {a e} ha hs ht := by
    rcases ha with rfl | ha
    · exact hf.reach h hs ht
    · obtain ⟨d, hd, hle⟩ := h.greatest ha hs ht
      by_cases hin : s < e ∧ e < c
      · obtain ⟨h₁, h₂⟩ := hf.inside hin.1 hin.2
        have := h₂ d hd
        exact ⟨t - e, h₁, by omega⟩
      · exact ⟨d, by rw [hf.outside (by omega), hd], hle⟩

end Lodestar.Base
