import Lodestar.Base.Forest

/-!
# Cached best children

Each node of a forest caches its best child and the best descendant behind it.
One pass over the nodes, the last first, lets every child challenge its parent's
cached best child. `GhostEnd` is the walk the caches stand for: move to the child
with the greatest key among those with a viable node below them, and stop where
there is none. The pass agrees with the walk except where the walk stops at a
node whose cached child is challenged, before it is visited itself, by a child
with a greater key: neither is viable, and the challenger stays (`Stale`).
-/

namespace Lodestar.Base

/-- The cached pointers. -/
structure Links where
  bestChild : Nat → Option Nat
  bestDescendant : Nat → Option Nat

namespace Links

variable {K : Type} [LinearOrder K]

/-- The end of the cached path from `i`. -/
def head (l : Links) (i : Nat) : Nat :=
  (l.bestDescendant i).getD i

/-- Whether the node or its best descendant is viable. -/
def leads (viable : Nat → Bool) (l : Links) (i : Nat) : Bool :=
  viable i || (l.bestDescendant i).elim false viable

/-- The pointers of parent `p` after child `c` has challenged them. -/
def challenge (key : Nat → K) (viable : Nat → Bool) (l : Links) (p c : Nat) :
    Option Nat × Option Nat :=
  let changeToChild := (some c, some (l.head c))
  let noChange := (l.bestChild p, l.bestDescendant p)
  match l.bestChild p with
  | some b =>
    if b = c then if l.leads viable c then changeToChild else (none, none)
    else if l.leads viable c && !l.leads viable b then changeToChild
    else if !l.leads viable c && l.leads viable b then noChange
    else if key b ≤ key c then changeToChild else noChange
  | none => if l.leads viable c then changeToChild else noChange

/-- Writes the pointers of `p`. -/
def set (l : Links) (p : Nat) (best : Option Nat × Option Nat) : Links where
  bestChild := Function.update l.bestChild p best.1
  bestDescendant := Function.update l.bestDescendant p best.2

/-- The visit of node `c`: it challenges its parent, if it has one. -/
def visit (f : Forest) (key : Nat → K) (viable : Nat → Bool) (l : Links) (c : Nat) : Links :=
  match f.parent c with
  | some p => l.set p (l.challenge key viable p c)
  | none => l

/-- The visits of the nodes below `n`, the last first. -/
def pass (f : Forest) (key : Nat → K) (viable : Nat → Bool) : Nat → Links → Links
  | 0, l => l
  | n + 1, l => pass f key viable n (l.visit f key viable n)

/-- A best child is a child, with a best descendant in its subtree. -/
structure Inv (f : Forest) (l : Links) : Prop where
  parent : ∀ {i c : Nat}, l.bestChild i = some c → f.parent c = some i
  descends : ∀ {i d : Nat}, l.bestDescendant i = some d →
    ∃ c, l.bestChild i = some c ∧ f.Descends d c
  isSome : ∀ {i c : Nat}, l.bestChild i = some c → ∃ d, l.bestDescendant i = some d

variable {f : Forest} {key : Nat → K} {viable : Nat → Bool} {l : Links} {b c d e i k p : Nat}

@[simp] theorem bestChild_set_self (best : Option Nat × Option Nat) :
    (l.set p best).bestChild p = best.1 :=
  Function.update_self ..

@[simp] theorem bestDescendant_set_self (best : Option Nat × Option Nat) :
    (l.set p best).bestDescendant p = best.2 :=
  Function.update_self ..

theorem bestChild_set_of_ne (best : Option Nat × Option Nat) (h : i ≠ p) :
    (l.set p best).bestChild i = l.bestChild i :=
  Function.update_of_ne h ..

theorem bestDescendant_set_of_ne (best : Option Nat × Option Nat) (h : i ≠ p) :
    (l.set p best).bestDescendant i = l.bestDescendant i :=
  Function.update_of_ne h ..

theorem challenge_cases (key : Nat → K) (viable : Nat → Bool) (l : Links) (p c : Nat) :
    l.challenge key viable p c = (some c, some (l.head c)) ∨
    l.challenge key viable p c = (none, none) ∧ l.bestChild p = some c ∧
      l.leads viable c = false ∨
    l.challenge key viable p c = (l.bestChild p, l.bestDescendant p) ∧ l.bestChild p ≠ some c := by
  rw [challenge]
  cases hb : l.bestChild p with
  | none =>
    cases hc : l.leads viable c <;> simp
  | some b =>
    by_cases hbc : b = c
    · subst hbc
      cases hc : l.leads viable b <;> simp
    · cases hc : l.leads viable c <;> cases hb' : l.leads viable b <;>
        by_cases hk : key b ≤ key c <;> simp [hbc, hk, hb']

theorem Inv.head_descends (h : Inv f l) (i : Nat) : f.Descends (l.head i) i := by
  rw [head]
  cases hd : l.bestDescendant i with
  | none => exact .refl i
  | some d =>
    obtain ⟨c, hc, hdesc⟩ := h.descends hd
    exact hdesc.trans (.of_parent (h.parent hc))

theorem Inv.bestDescendant_eq_none (h : Inv f l) (hc : l.bestChild i = none) :
    l.bestDescendant i = none := by
  rw [Option.eq_none_iff_forall_ne_some]
  intro d hd
  obtain ⟨c, hc', -⟩ := h.descends hd
  rw [hc] at hc'
  cases hc'

theorem Inv.head_eq_self (h : Inv f l) (hc : l.bestChild i = none) : l.head i = i := by
  rw [head, h.bestDescendant_eq_none hc, Option.getD_none]

theorem Inv.bestDescendant_lt (h : Inv f l) (hd : l.bestDescendant i = some d) : d < f.size := by
  obtain ⟨c, hc, hdesc⟩ := h.descends hd
  by_cases hne : d = c
  · rw [hne]
    exact f.lt_size (h.parent hc)
  · obtain ⟨q, hq, -⟩ := hdesc.exists_parent hne
    exact f.lt_size hq

theorem Inv.push {p? : Option Nat} {hp : ∀ p, p? = some p → p < f.size} (h : Inv f l) :
    Inv (f.push p? hp) l where
  parent hc := by
    have hpar := h.parent hc
    rwa [Forest.parent_push_of_lt (f.lt_size hpar)]
  descends hd := by
    obtain ⟨c, hc, hdesc⟩ := h.descends hd
    exact ⟨c, hc, (Forest.descends_push_iff (h.bestDescendant_lt hd)).mpr hdesc⟩
  isSome := h.isSome

/-- The pointers of the nodes from `n` on, renumbered. -/
def drop (l : Links) (n : Nat) : Links where
  bestChild i := (l.bestChild (i + n)).map (· - n)
  bestDescendant i := (l.bestDescendant (i + n)).map (· - n)

theorem Inv.le_bestChild (h : Inv f l) {n : Nat} (hc : l.bestChild (i + n) = some c) : n ≤ c := by
  have hlt := f.parent_lt (h.parent hc)
  omega

theorem Inv.le_bestDescendant (h : Inv f l) {n : Nat} (hd : l.bestDescendant (i + n) = some d) :
    n ≤ d := by
  obtain ⟨c, hc, hdesc⟩ := h.descends hd
  exact (h.le_bestChild hc).trans hdesc.le

theorem Inv.drop (h : Inv f l) (n : Nat) : Inv (f.drop n) (l.drop n) where
  parent {i c} hc := by
    obtain ⟨c', hc', rfl⟩ := Option.map_eq_some_iff.mp hc
    rw [Forest.parent_drop_iff, Nat.sub_add_cancel (h.le_bestChild hc')]
    exact h.parent hc'
  descends {i d} hd := by
    obtain ⟨d', hd', rfl⟩ := Option.map_eq_some_iff.mp hd
    obtain ⟨c, hc, hdesc⟩ := h.descends hd'
    refine ⟨c - n, Option.map_eq_some_iff.mpr ⟨c, hc, rfl⟩, ?_⟩
    rwa [Forest.descends_drop_iff, Nat.sub_add_cancel (h.le_bestDescendant hd'),
      Nat.sub_add_cancel (h.le_bestChild hc)]
  isSome {i c} hc := by
    obtain ⟨c', hc', -⟩ := Option.map_eq_some_iff.mp hc
    obtain ⟨d, hd⟩ := h.isSome hc'
    exact ⟨d - n, Option.map_eq_some_iff.mpr ⟨d, hd, rfl⟩⟩

variable (key viable) in
theorem Inv.set_challenge (h : Inv f l) (hp : f.parent c = some p) :
    Inv f (l.set p (l.challenge key viable p c)) := by
  have hother : ∀ {best : Option Nat × Option Nat},
      (best = (some c, some (l.head c)) ∨ best = (none, none) ∨
        best = (l.bestChild p, l.bestDescendant p)) → Inv f (l.set p best) := by
    intro best hbest
    refine ⟨fun {i x} hx => ?_, fun {i d} hd => ?_, fun {i x} hx => ?_⟩ <;> by_cases hi : i = p
    · subst hi
      rw [bestChild_set_self] at hx
      rcases hbest with rfl | rfl | rfl
      · rwa [← Option.some.inj hx]
      · cases hx
      · exact h.parent hx
    · rw [bestChild_set_of_ne _ hi] at hx
      exact h.parent hx
    · subst hi
      rw [bestDescendant_set_self] at hd
      rw [bestChild_set_self]
      rcases hbest with rfl | rfl | rfl
      · rw [← Option.some.inj hd]
        exact ⟨c, rfl, h.head_descends c⟩
      · cases hd
      · exact h.descends hd
    · rw [bestDescendant_set_of_ne _ hi] at hd
      rw [bestChild_set_of_ne _ hi]
      exact h.descends hd
    · subst hi
      rw [bestChild_set_self] at hx
      rw [bestDescendant_set_self]
      rcases hbest with rfl | rfl | rfl
      · exact ⟨_, rfl⟩
      · cases hx
      · exact h.isSome hx
    · rw [bestChild_set_of_ne _ hi] at hx
      rw [bestDescendant_set_of_ne _ hi]
      exact h.isSome hx
  rcases challenge_cases key viable l p c with hc | ⟨hc, -⟩ | ⟨hc, -⟩
  · exact hother (.inl hc)
  · exact hother (.inr (.inl hc))
  · exact hother (.inr (.inr hc))

theorem Inv.visit (h : Inv f l) (c : Nat) : Inv f (l.visit f key viable c) := by
  rw [Links.visit]
  split
  · exact h.set_challenge _ _ ‹_›
  · exact h

theorem Inv.pass (h : Inv f l) (n : Nat) : Inv f (pass f key viable n l) := by
  induction n generalizing l with
  | zero => exact h
  | succ n ih => exact ih (h.visit n)

/-! ## Coherent pointers -/

/-- The best descendant is the head of the best child, for the best children in `s`. -/
def CoherentAt (l : Links) (s : Set Nat) : Prop :=
  ∀ {i c : Nat}, l.bestChild i = some c → c ∈ s → l.bestDescendant i = some (l.head c)

/-- The best descendant is the head of the best child. -/
def Coherent (l : Links) : Prop := l.CoherentAt Set.univ

theorem CoherentAt.univ {s : Set Nat} (h : l.CoherentAt s) (hs : ∀ {i c}, l.bestChild i = some c → c ∈ s) :
    l.Coherent := fun hc _ => h hc (hs hc)

/-- Where only the pointers to `c` are out of date, a challenge by `c` leaves only those to its
parent so. -/
theorem CoherentAt.set_challenge (key : Nat → K) (viable : Nat → Bool) (h : Inv f l)
    (hl : l.CoherentAt {c}ᶜ) (hp : f.parent c = some p) :
    (l.set p (l.challenge key viable p c)).CoherentAt {p}ᶜ := by
  intro i x hx hne
  have hhead : (l.set p (l.challenge key viable p c)).head x = l.head x := by
    rw [head, bestDescendant_set_of_ne _ hne, head]
  rw [hhead]
  by_cases hi : i = p
  · subst hi
    rw [bestChild_set_self] at hx
    rw [bestDescendant_set_self]
    rcases challenge_cases key viable l i c with hc | ⟨hc, -⟩ | ⟨hc, hnot⟩ <;> rw [hc] at hx ⊢
    · rw [← Option.some.inj hx]
    · cases hx
    · exact hl hx fun heq => hnot (heq ▸ hx)
  · rw [bestChild_set_of_ne _ hi] at hx
    rw [bestDescendant_set_of_ne _ hi]
    refine hl hx ?_
    rintro rfl
    exact hi (Option.some.inj ((h.parent hx).symm.trans hp))

theorem Coherent.drop (h : l.Coherent) (hinv : Inv f l) (n : Nat) : (l.drop n).Coherent := by
  intro i c hc _
  obtain ⟨c', hc', rfl⟩ := Option.map_eq_some_iff.mp hc
  have hle := hinv.le_bestChild hc'
  have hd := h hc' (Set.mem_univ c')
  show (l.bestDescendant (i + n)).map (· - n) = _
  rw [hd, Option.map_some, head, head]
  show _ = some (((l.bestDescendant (c' - n + n)).map (· - n)).getD (c' - n))
  rw [Nat.sub_add_cancel hle]
  cases l.bestDescendant c' <;> rfl

/-! ## Stages of the pass -/

variable (f key viable l) in
theorem pass_induction (P : Nat → Links → Prop)
    (hstep : ∀ k l, P (k + 1) l → P k (l.visit f key viable k)) {n : Nat} (h : P n l) :
    P 0 (pass f key viable n l) := by
  induction n generalizing l with
  | zero => exact h
  | succ n ih => exact ih _ (hstep n l h)

variable (key viable l) in
theorem visit_of_parent_ne (h : f.parent c ≠ some i) :
    (l.visit f key viable c).bestChild i = l.bestChild i ∧
      (l.visit f key viable c).bestDescendant i = l.bestDescendant i := by
  rw [visit]
  cases hp : f.parent c with
  | none => exact ⟨rfl, rfl⟩
  | some p =>
    have hne : i ≠ p := fun heq => h (heq ▸ hp)
    exact ⟨bestChild_set_of_ne _ hne, bestDescendant_set_of_ne _ hne⟩

theorem visit_cases (key : Nat → K) (viable : Nat → Bool) (l : Links) (h : f.parent c = some p) :
    ((l.visit f key viable c).bestChild p = some c ∧
      (l.visit f key viable c).bestDescendant p = some (l.head c)) ∨
    ((l.visit f key viable c).bestChild p = none ∧ l.bestChild p = some c ∧
      l.leads viable c = false) ∨
    ((l.visit f key viable c).bestChild p = l.bestChild p ∧
      (l.visit f key viable c).bestDescendant p = l.bestDescendant p ∧
      l.bestChild p ≠ some c) := by
  simp only [visit, h, bestChild_set_self, bestDescendant_set_self]
  rcases challenge_cases key viable l p c with hc | ⟨hc, hrest⟩ | ⟨hc, hne⟩ <;> rw [hc]
  · exact .inl ⟨rfl, rfl⟩
  · exact .inr (.inl ⟨rfl, hrest⟩)
  · exact .inr (.inr ⟨rfl, rfl, hne⟩)

theorem pass_final {n : Nat} (h : n ≤ i + 1) :
    (pass f key viable n l).bestChild i = l.bestChild i ∧
      (pass f key viable n l).bestDescendant i = l.bestDescendant i := by
  induction n generalizing l with
  | zero => exact ⟨rfl, rfl⟩
  | succ n ih =>
    have hne : f.parent n ≠ some i := fun hp => absurd (f.parent_lt hp) (by omega)
    obtain ⟨hc, hd⟩ := ih (l := l.visit f key viable n) (by omega)
    obtain ⟨hc', hd'⟩ := visit_of_parent_ne key viable l hne
    exact ⟨hc.trans hc', hd.trans hd'⟩

theorem head_pass {n : Nat} (h : n ≤ i + 1) : (pass f key viable n l).head i = l.head i := by
  rw [head, head, (pass_final h).2]

variable (f key) in
theorem leads_pass {n : Nat} (h : n ≤ i + 1) :
    (pass f key viable n l).leads viable i = l.leads viable i := by
  rw [leads, leads, (pass_final h).2]

theorem bestDescendant_pass (h : Inv f l)
    (hc : (pass f key viable f.size l).bestChild i = some c) :
    (pass f key viable f.size l).bestDescendant i
      = some ((pass f key viable f.size l).head c) := by
  obtain ⟨l', hl'⟩ : ∃ l', pass f key viable f.size l = l' := ⟨_, rfl⟩
  have hall := pass_induction f key viable l (n := f.size)
    (fun k m => pass f key viable k m = l' ∧ Inv f m ∧
      ∀ c, k ≤ c → m.bestChild i = some c → m.bestDescendant i = some (l'.head c))
    (fun k m ⟨hm, hinv, hstage⟩ => ⟨hm, hinv.visit k, ?_⟩)
    ⟨hl', h, fun c hk hc => absurd (f.lt_size (h.parent hc)) (by omega)⟩
  · rw [hl'] at hall hc ⊢
    exact hall.2.2 c (Nat.zero_le c) hc
  · intro c hk hc
    by_cases hp : f.parent k = some i
    · rcases visit_cases key viable m hp with ⟨hc', hd'⟩ | ⟨hc', -⟩ | ⟨hc', hd', hne⟩
      · obtain rfl : k = c := Option.some.inj (hc'.symm.trans hc)
        rw [hd', ← hm, head_pass (Nat.le_refl _)]
      · rw [hc'] at hc
        cases hc
      · rw [hc'] at hc
        have hlt : k ≠ c := fun heq => hne (heq ▸ hc)
        exact hd'.trans (hstage c (by omega) hc)
    · obtain ⟨hc', hd'⟩ := visit_of_parent_ne key viable m hp
      rw [hc'] at hc
      have hlt : k ≠ c := fun heq => hp (heq ▸ hinv.parent hc)
      exact hd'.trans (hstage c (by omega) hc)

theorem Inv.coherent_pass (h : Inv f l) : (Links.pass f key viable f.size l).Coherent :=
  fun hc _ => bestDescendant_pass h hc

theorem bestChild_head_pass (h : Inv f l) (i : Nat) :
    (pass f key viable f.size l).bestChild ((pass f key viable f.size l).head i) = none := by
  have hinv : Inv f (pass f key viable f.size l) := h.pass f.size
  cases hc : (pass f key viable f.size l).bestChild i with
  | none => rw [hinv.head_eq_self hc, hc]
  | some c =>
    have hlt : i < c := f.parent_lt (hinv.parent hc)
    have hsize : c < f.size := f.lt_size (hinv.parent hc)
    have hhead : (pass f key viable f.size l).head i = (pass f key viable f.size l).head c := by
      rw [head, bestDescendant_pass h hc, Option.getD_some]
    rw [hhead]
    exact bestChild_head_pass h c
termination_by f.size - i

end Links

/-! ## The walk -/

section Walk

variable {K : Type} [LinearOrder K] (f : Forest) (key : Nat → K) (viable : Nat → Bool)

/-- Some node of the subtree of `i` is viable. -/
def ViableBelow (i : Nat) : Prop :=
  ∃ d, f.Descends d i ∧ viable d = true

/-- `c` has the greatest key among the children of `i` with a viable node below them. -/
structure GhostChild (i c : Nat) : Prop where
  parent : f.parent c = some i
  viableBelow : ViableBelow f viable c
  best : ∀ {c' : Nat}, f.parent c' = some i → ViableBelow f viable c' → key c' ≤ key c

/-- The walk from `i` ends at `e`. -/
inductive GhostEnd : Nat → Nat → Prop
  | stop {i : Nat} (h : ∀ c, f.parent c = some i → ¬ ViableBelow f viable c) : GhostEnd i i
  | step {i c e : Nat} (h : GhostChild f key viable i c) (hrest : GhostEnd c e) : GhostEnd i e

/-- The walk ends at `e`, whose cached child is behind a child the pass visits before it. -/
def Stale (l : Links) (e : Nat) : Prop :=
  ∃ b c, l.bestChild e = some b ∧ f.parent c = some e ∧ b < c ∧ key b ≤ key c

variable {f key viable} {i c e : Nat}

theorem GhostEnd.not_viableBelow (h : GhostEnd f key viable i e) :
    ∀ c, f.parent c = some e → ¬ ViableBelow f viable c := by
  induction h with
  | stop h => exact h
  | step _ _ ih => exact ih

theorem GhostEnd.isViable (h : GhostEnd f key viable i e) (hi : ViableBelow f viable i) :
    viable e = true := by
  induction h with
  | @stop i h =>
    obtain ⟨d, hdesc, hd⟩ := hi
    by_cases hne : d = i
    · rwa [← hne]
    · obtain ⟨k, hk, hdesc⟩ := hdesc.exists_child hne
      exact absurd ⟨d, hdesc, hd⟩ (h k hk)
  | step h _ ih => exact ih h.viableBelow

theorem GhostEnd.lt_size (h : GhostEnd f key viable i e) (hi : i < f.size) : e < f.size := by
  induction h with
  | stop _ => exact hi
  | step hg _ ih => exact ih (f.lt_size hg.parent)

theorem GhostEnd.isViable_of_ne (h : GhostEnd f key viable i e) (hne : e ≠ i) :
    viable e = true := by
  cases h with
  | stop _ => exact absurd rfl hne
  | step hg hrest => exact hrest.isViable hg.viableBelow

/-- The walk ends: children come after their parents. -/
theorem GhostEnd.exists (f : Forest) (key : Nat → K) (viable : Nat → Bool) (i : Nat) :
    ∃ e, GhostEnd f key viable i e := by
  classical
  by_cases hstop : ∀ c, f.parent c = some i → ¬ ViableBelow f viable c
  · exact ⟨i, .stop hstop⟩
  · push Not at hstop
    obtain ⟨c₀, hc₀, hv₀⟩ := hstop
    let candidates := (Finset.range f.size).filter fun c =>
      f.parent c = some i ∧ ViableBelow f viable c
    have hmem : ∀ c, c ∈ candidates ↔ f.parent c = some i ∧ ViableBelow f viable c := by
      intro c
      simp only [candidates, Finset.mem_filter, Finset.mem_range, and_iff_right_iff_imp]
      exact fun h => f.lt_size h.1
    obtain ⟨c, hc, hbest⟩ := candidates.exists_max_image key ⟨c₀, (hmem c₀).mpr ⟨hc₀, hv₀⟩⟩
    obtain ⟨hp, hv⟩ := (hmem c).mp hc
    have hlt : i < c := f.parent_lt hp
    have hsize : c < f.size := f.lt_size hp
    obtain ⟨e, he⟩ := GhostEnd.exists f key viable c
    exact ⟨e, .step ⟨hp, hv, fun h h' => hbest _ ((hmem _).mpr ⟨h, h'⟩)⟩ he⟩
termination_by f.size - i

/-! ## The pass against the walk -/

namespace Links

variable {l : Links}

theorem viableBelow_of_leads (h : Inv f l) (hl : l.leads viable i = true) :
    ViableBelow f viable i := by
  rw [leads, Bool.or_eq_true] at hl
  rcases hl with hl | hl
  · exact ⟨i, .refl i, hl⟩
  · cases hd : l.bestDescendant i with
    | none =>
      rw [hd] at hl
      cases hl
    | some d =>
      rw [hd] at hl
      obtain ⟨c, hc, hdesc⟩ := h.descends hd
      exact ⟨d, hdesc.trans (.of_parent (h.parent hc)), hl⟩

/-- A best child that leads to a viable head wins its challenge, and every later one. -/
theorem bestChild_pass_ghost (h : Inv f l) (hkey : Set.InjOn key (Set.Iio f.size))
    (hg : GhostChild f key viable i c)
    (hleads : (pass f key viable f.size l).leads viable c = true) :
    (pass f key viable f.size l).bestChild i = some c := by
  obtain ⟨l', hl'⟩ : ∃ l', pass f key viable f.size l = l' := ⟨_, rfl⟩
  have hall := pass_induction f key viable l (n := f.size)
    (fun k m => pass f key viable k m = l' ∧ Inv f m ∧ (k ≤ c → m.bestChild i = some c))
    (fun k m ⟨hm, hinv, hstage⟩ => ⟨hm, hinv.visit k, fun hk => ?_⟩)
    ⟨hl', h, fun hk => absurd (f.lt_size hg.parent) (by omega)⟩
  · rw [hl'] at hall ⊢
    exact hall.2.2 (Nat.zero_le c)
  · have hc : m.leads viable c = true := by
      rw [← leads_pass f key (n := k + 1) (by omega), hm, ← hl']
      exact hleads
    by_cases hp : f.parent k = some i
    · rw [visit, hp]
      simp only [bestChild_set_self, challenge]
      rcases Nat.eq_or_lt_of_le hk with rfl | hlt
      · -- `c` itself challenges
        cases hb : m.bestChild i with
        | none => simp [hc]
        | some b =>
          by_cases hbc : b = k
          · simp [hbc, hc]
          · by_cases hb' : m.leads viable b = true
            · have hle : key b ≤ key k := hg.best (hinv.parent hb) (viableBelow_of_leads hinv hb')
              simp [hbc, hc, hb', hle]
            · simp [hbc, hc, hb']
      · rw [hstage hlt]
        have hne : c ≠ k := by omega
        by_cases hk' : m.leads viable k = true
        · have hle : key k ≤ key c := hg.best hp (viableBelow_of_leads hinv hk')
          have hnot : ¬ key c ≤ key k := fun hge =>
            hne (hkey (f.lt_size hg.parent) (f.lt_size hp) (le_antisymm hge hle))
          simp [hne, hc, hk', hnot]
        · simp [hne, hc, hk']
    · rw [(visit_of_parent_ne _ _ _ hp).1]
      refine hstage (Nat.lt_of_le_of_ne hk fun heq => hp ?_)
      rw [heq]
      exact hg.parent

theorem visit_of_not_leads (hp : f.parent k = some e) (hk : l.leads viable k = false)
    (hb : ∀ b, l.bestChild e = some b → l.leads viable b = false) :
    (l.visit f key viable k).bestChild e
      = (l.bestChild e).bind fun b =>
          if b = k then none else if key b ≤ key k then some k else some b := by
  rw [visit, hp]
  simp only [bestChild_set_self, challenge]
  cases hbe : l.bestChild e with
  | none => simp [hk]
  | some b =>
    by_cases hbk : b = k
    · simp [hbk, hk]
    · by_cases hkey : key b ≤ key k <;> simp [hbk, hk, hb b hbe, hkey]

variable (key) in
/-- Where the walk stops, the pass leaves no best child unless the cached one was behind a child
visited before it. -/
theorem bestChild_pass_stop (h : Inv f l)
    (hstop : ∀ c, f.parent c = some e → ¬ ViableBelow f viable c) :
    (pass f key viable f.size l).bestChild e = none ↔ ¬ Stale f key l e := by
  have hleads : ∀ {m : Links}, Inv f m → ∀ c, f.parent c = some e → m.leads viable c = false :=
    fun hm c hc => Bool.eq_false_iff.mpr fun hl => hstop c hc (viableBelow_of_leads hm hl)
  have hvisit : ∀ {m : Links} {k : Nat}, Inv f m → f.parent k = some e →
      (m.visit f key viable k).bestChild e = (m.bestChild e).bind fun b =>
        if b = k then none else if key b ≤ key k then some k else some b :=
    fun hm hp => visit_of_not_leads hp (hleads hm _ hp) fun b hb => hleads hm b (hm.parent hb)
  by_cases hstale : Stale f key l e
  · -- a challenger that has won stays: it has been visited
    obtain ⟨b, c, hb, hc, hbc, hle⟩ := id hstale
    have hall := pass_induction f key viable l (n := f.size)
      (fun k m => Inv f m ∧ ∃ x, m.bestChild e = some x ∧ (k ≤ x ∨ x = b ∧ c < k))
      (fun k m ⟨hm, x, hx, hstage⟩ => ⟨hm.visit k, ?_⟩) ⟨h, b, hb, .inr ⟨rfl, f.lt_size hc⟩⟩
    · obtain ⟨-, x, hx, -⟩ := hall
      simp [hx, hstale]
    · by_cases hp : f.parent k = some e
      · rw [hvisit hm hp, hx, Option.bind_some, if_neg (by omega)]
        by_cases hxk : key x ≤ key k
        · exact ⟨k, if_pos hxk, .inl (le_refl k)⟩
        · refine ⟨x, if_neg hxk, ?_⟩
          rcases hstage with hx' | ⟨rfl, hck⟩
          · exact .inl (by omega)
          · refine .inr ⟨rfl, Nat.lt_of_le_of_ne (by omega) ?_⟩
            rintro rfl
            exact hxk hle
      · rw [(visit_of_parent_ne _ _ _ hp).1]
        have hne : c ≠ k := fun heq => hp (heq ▸ hc)
        exact ⟨x, hx, by omega⟩
  · -- the cached child stays until it is visited, and is removed then
    simp only [hstale, not_false_eq_true, iff_true]
    cases hb : l.bestChild e with
    | none =>
      refine (pass_induction f key viable l (n := f.size)
        (fun _ m => Inv f m ∧ m.bestChild e = none)
        (fun k m ⟨hm, hx⟩ => ⟨hm.visit k, ?_⟩) ⟨h, hb⟩).2
      by_cases hp : f.parent k = some e
      · rw [hvisit hm hp, hx, Option.bind_none]
      · rw [(visit_of_parent_ne _ _ _ hp).1, hx]
    | some b =>
      have hpb : f.parent b = some e := h.parent hb
      have hall := pass_induction f key viable l (n := f.size)
        (fun k m => Inv f m ∧ m.bestChild e = if b < k then some b else none)
        (fun k m ⟨hm, hx⟩ => ⟨hm.visit k, ?_⟩) ⟨h, by rw [if_pos (f.lt_size hpb), hb]⟩
      · exact hall.2.trans (if_neg (Nat.not_lt_zero b))
      · by_cases hp : f.parent k = some e
        · rw [hvisit hm hp, hx]
          rcases Nat.lt_trichotomy b k with hlt | rfl | hgt
          · have hnot : ¬ key b ≤ key k := fun hle => hstale ⟨b, k, hb, hp, hlt, hle⟩
            rw [if_pos (by omega), Option.bind_some, if_neg (by omega), if_neg hnot, if_pos hlt]
          · rw [if_pos (by omega), Option.bind_some, if_pos rfl, if_neg (by omega)]
          · rw [if_neg (by omega), Option.bind_none, if_neg (by omega)]
        · rw [(visit_of_parent_ne _ _ _ hp).1, hx]
          have hne : b ≠ k := fun heq => hp (heq ▸ hpb)
          simp only [Nat.lt_succ_iff, Nat.le_iff_lt_or_eq, hne, or_false]

theorem head_pass_eq_iff (h : Inv f l) (hkey : Set.InjOn key (Set.Iio f.size))
    (hw : GhostEnd f key viable i e) :
    (pass f key viable f.size l).head i = e ↔ ¬ Stale f key l e := by
  have hend := bestChild_pass_stop key h hw.not_viableBelow
  refine ⟨fun hhead => hend.mp (hhead ▸ bestChild_head_pass h i), fun hstale => ?_⟩
  have hinv : Inv f (pass f key viable f.size l) := h.pass f.size
  have hnone := hend.mpr hstale
  clear hend hstale
  induction hw with
  | stop _ => exact hinv.head_eq_self hnone
  | @step i c e hg hrest ih =>
    have hhead := ih hnone
    have hviable : viable e = true := hrest.isViable hg.viableBelow
    have hleads : (pass f key viable f.size l).leads viable c = true := by
      rw [leads]
      cases hd : (pass f key viable f.size l).bestDescendant c with
      | none =>
        rw [head, hd, Option.getD_none] at hhead
        simp [hhead, hviable]
      | some d =>
        rw [head, hd, Option.getD_some] at hhead
        simp [hhead, hviable]
    have hbest := bestChild_pass_ghost h hkey hg hleads
    rw [head, bestDescendant_pass h hbest, Option.getD_some, hhead]

end Links

end Walk

end Lodestar.Base
