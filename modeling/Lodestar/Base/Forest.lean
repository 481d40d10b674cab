import Mathlib.Algebra.BigOperators.Group.Finset.Sigma
import Mathlib.Logic.Relation
import Mathlib.Tactic

/-!
# Forests as parent arrays

The nodes of a forest are the numbers below its size, and the parent of a node
comes before it. `Descends d c` says that `d` is in the subtree of `c`.
`subtreeSum` adds a quantity up over a subtree; a loop that visits the nodes
from the last to the first and passes each one's total on to its parent
computes it (`partialSum`).
-/

namespace Lodestar.Base

structure Forest where
  size : Nat
  parent : Nat → Option Nat
  parent_lt : ∀ {c p : Nat}, parent c = some p → p < c
  lt_size : ∀ {c p : Nat}, parent c = some p → c < size

namespace Forest

@[ext] theorem ext' {f g : Forest} (hsize : f.size = g.size) (hparent : f.parent = g.parent) :
    f = g := by
  cases f
  cases g
  simp_all

variable (f : Forest)

/-- `d` is `c` or below it. -/
def Descends (d c : Nat) : Prop :=
  Relation.ReflTransGen (fun x y => f.parent x = some y) d c

variable {f} {a b c d i k p : Nat}

namespace Descends

theorem refl (c : Nat) : f.Descends c c :=
  Relation.ReflTransGen.refl

theorem trans (h₁ : f.Descends d c) (h₂ : f.Descends c b) : f.Descends d b :=
  Relation.ReflTransGen.trans h₁ h₂

theorem of_parent (h : f.parent c = some p) : f.Descends c p :=
  .single h

theorem le (h : f.Descends d c) : c ≤ d := by
  induction h with
  | refl => exact le_refl d
  | tail _ hp ih => exact (f.parent_lt hp).le.trans ih

theorem lt_size (h : f.Descends d c) (hd : d < f.size) : c < f.size :=
  h.le.trans_lt hd

theorem exists_child (h : f.Descends d c) (hne : d ≠ c) :
    ∃ k, f.parent k = some c ∧ f.Descends d k := by
  obtain rfl | ⟨k, hk, hp⟩ := Relation.ReflTransGen.cases_tail h
  · exact absurd rfl hne
  · exact ⟨k, hp, hk⟩

theorem exists_parent (h : f.Descends d c) (hne : d ≠ c) :
    ∃ p, f.parent d = some p ∧ f.Descends p c := by
  obtain rfl | ⟨p, hp, h⟩ := Relation.ReflTransGen.cases_head h
  · exact absurd rfl hne
  · exact ⟨p, hp, h⟩

theorem total (h₁ : f.Descends d a) (h₂ : f.Descends d b) : f.Descends a b ∨ f.Descends b a := by
  induction h₁ with
  | refl => exact .inl h₂
  | @tail x y _ hp ih =>
    rcases ih with ih | ih
    · by_cases hne : x = b
      · subst hne
        exact .inr (of_parent hp)
      · obtain ⟨q, hq, h⟩ := ih.exists_parent hne
        obtain rfl : q = y := Option.some.inj (hq.symm.trans hp)
        exact .inl h
    · exact .inr (ih.tail hp)

theorem child_unique (ha : f.parent a = some p) (hb : f.parent b = some p) (h₁ : f.Descends d a)
    (h₂ : f.Descends d b) : a = b := by
  by_contra hne
  rcases h₁.total h₂ with h | h
  · obtain ⟨q, hq, h⟩ := h.exists_parent hne
    obtain rfl : q = p := Option.some.inj (hq.symm.trans ha)
    exact absurd (f.parent_lt hb) (Nat.not_lt.mpr h.le)
  · obtain ⟨q, hq, h⟩ := h.exists_parent (Ne.symm hne)
    obtain rfl : q = p := Option.some.inj (hq.symm.trans hb)
    exact absurd (f.parent_lt ha) (Nat.not_lt.mpr h.le)

end Descends

/-! ## The path to the root -/

/-- The proper ancestors of a node, the nearest first. -/
def ancestors (f : Forest) (i : Nat) : List Nat :=
  match _h : f.parent i with
  | none => []
  | some p => p :: f.ancestors p
termination_by i
decreasing_by exact f.parent_lt _h

theorem ancestors_of_none (h : f.parent i = none) : f.ancestors i = [] := by
  rw [ancestors]
  split
  · rfl
  · simp_all

theorem ancestors_of_some (h : f.parent i = some p) : f.ancestors i = p :: f.ancestors p := by
  rw [ancestors]
  split
  · simp_all
  · simp_all

theorem mem_ancestors : a ∈ f.ancestors i ↔ f.Descends i a ∧ i ≠ a := by
  induction i using Nat.strong_induction_on with
  | _ i ih =>
    cases hp : f.parent i with
    | none =>
      rw [ancestors_of_none hp]
      refine ⟨nofun, fun ⟨h, hne⟩ => ?_⟩
      obtain ⟨p, hp', -⟩ := h.exists_parent hne
      rw [hp] at hp'
      cases hp'
    | some p =>
      have hlt := f.parent_lt hp
      rw [ancestors_of_some hp, List.mem_cons, ih p hlt]
      constructor
      · rintro (rfl | ⟨h, -⟩)
        · exact ⟨.of_parent hp, hlt.ne'⟩
        · exact ⟨(Descends.of_parent hp).trans h, (h.le.trans_lt hlt).ne'⟩
      · rintro ⟨h, hne⟩
        obtain ⟨q, hq, h⟩ := h.exists_parent hne
        obtain rfl : q = p := Option.some.inj (hq.symm.trans hp)
        by_cases heq : a = q
        · exact .inl heq
        · exact .inr ⟨h, Ne.symm heq⟩

theorem find?_ancestors {α : Type} {get : Nat → Option α} {p : α → Bool} {x : α}
    (h : ((f.ancestors i).filterMap get).find? p = some x) :
    ∃ a, f.Descends i a ∧ get a = some x ∧ p x = true ∧
      ∀ c y, f.Descends i c → i ≠ c → a < c → get c = some y → p y = false := by
  induction i using Nat.strong_induction_on with
  | _ i ih =>
    cases hp : f.parent i with
    | none =>
      rw [ancestors_of_none hp] at h
      cases h
    | some q =>
      rw [ancestors_of_some hp, List.filterMap_cons] at h
      have hlt := f.parent_lt hp
      have hbelow : ∀ {c}, f.Descends i c → i ≠ c → f.Descends q c := by
        intro c hd hne
        obtain ⟨q', hq', hd⟩ := hd.exists_parent hne
        obtain rfl : q' = q := Option.some.inj (hq'.symm.trans hp)
        exact hd
      -- the parent, or one of its ancestors
      by_cases hfound : ∃ y, get q = some y ∧ p y = true
      · obtain ⟨y, hy, hpy⟩ := hfound
        rw [hy] at h
        simp only [List.find?_cons, hpy, Option.some.injEq] at h
        subst h
        refine ⟨q, .of_parent hp, hy, hpy, fun c z hd hne hqc _ => ?_⟩
        exact absurd (hbelow hd hne).le (by omega)
      · have hrest : ((f.ancestors q).filterMap get).find? p = some x := by
          cases hy : get q with
          | none => rwa [hy] at h
          | some y =>
            have hno : p y = false := by
              by_contra hpy
              exact hfound ⟨y, hy, by simpa using hpy⟩
            rw [hy] at h
            simpa only [List.find?_cons, hno] using h
        obtain ⟨a, hd, hget, hpx, hnear⟩ := ih q hlt hrest
        refine ⟨a, (Descends.of_parent hp).trans hd, hget, hpx, fun c y hdc hne hac hy => ?_⟩
        by_cases hqc : q = c
        · subst hqc
          by_contra hpy
          exact hfound ⟨y, hy, by simpa using hpy⟩
        · exact hnear c y (hbelow hdc hne) hqc hac hy

/-! ## Sums over subtrees -/

section Sums

open Classical in
/-- The nodes of the subtree of `i`. -/
noncomputable def subtree (f : Forest) (i : Nat) : Finset Nat :=
  (Finset.range f.size).filter (f.Descends · i)

open Classical in
/-- The children of `i` from `k` on. -/
noncomputable def childrenFrom (f : Forest) (k i : Nat) : Finset Nat :=
  (Finset.range f.size).filter fun c => f.parent c = some i ∧ k ≤ c

variable {M : Type} [AddCommMonoid M]

/-- The total of a quantity over the subtree of `i`. -/
noncomputable def subtreeSum (f : Forest) (w : Nat → M) (i : Nat) : M :=
  ∑ j ∈ f.subtree i, w j

theorem mem_subtree : d ∈ f.subtree i ↔ d < f.size ∧ f.Descends d i := by
  simp [subtree]

theorem mem_childrenFrom : c ∈ f.childrenFrom k i ↔ f.parent c = some i ∧ k ≤ c := by
  simp only [childrenFrom, Finset.mem_filter, Finset.mem_range, and_iff_right_iff_imp]
  exact fun h => f.lt_size h.1

theorem subtree_eq (hi : i < f.size) :
    f.subtree i = insert i ((f.childrenFrom 0 i).biUnion f.subtree) := by
  ext d
  simp only [Finset.mem_insert, Finset.mem_biUnion, mem_childrenFrom, mem_subtree]
  refine ⟨fun ⟨hd, h⟩ => ?_, ?_⟩
  · by_cases hne : d = i
    · exact .inl hne
    · obtain ⟨k, hk, h⟩ := h.exists_child hne
      exact .inr ⟨k, ⟨hk, Nat.zero_le k⟩, hd, h⟩
  · rintro (rfl | ⟨k, ⟨hk, -⟩, hd, h⟩)
    · exact ⟨hi, .refl _⟩
    · exact ⟨hd, h.trans (.of_parent hk)⟩

theorem subtreeSum_eq (w : Nat → M) (hi : i < f.size) :
    f.subtreeSum w i = w i + ∑ c ∈ f.childrenFrom 0 i, f.subtreeSum w c := by
  have hnot : i ∉ (f.childrenFrom 0 i).biUnion f.subtree := by
    simp only [Finset.mem_biUnion, mem_childrenFrom, mem_subtree, not_exists, not_and]
    exact fun c hc _ h => absurd (f.parent_lt hc.1) (Nat.not_lt.mpr h.le)
  have hdisj : Set.PairwiseDisjoint (f.childrenFrom 0 i : Set Nat) f.subtree := by
    intro a ha b hb hne
    refine Finset.disjoint_left.mpr fun d h₁ h₂ => hne ?_
    exact Descends.child_unique (mem_childrenFrom.mp ha).1 (mem_childrenFrom.mp hb).1
      (mem_subtree.mp h₁).2 (mem_subtree.mp h₂).2
  rw [subtreeSum, subtree_eq hi, Finset.sum_insert hnot, Finset.sum_biUnion hdisj]
  rfl

theorem subtreeSum_congr {w w' : Nat → M} (h : ∀ d < f.size, f.Descends d i → w d = w' d) :
    f.subtreeSum w i = f.subtreeSum w' i :=
  Finset.sum_congr rfl fun d hd => h d (mem_subtree.mp hd).1 (mem_subtree.mp hd).2

theorem subtreeSum_add (w w' : Nat → M) (i : Nat) :
    f.subtreeSum (fun d => w d + w' d) i = f.subtreeSum w i + f.subtreeSum w' i :=
  Finset.sum_add_distrib

theorem subtreeSum_of_le {w : Nat → M} (hi : f.size ≤ i) : f.subtreeSum w i = 0 :=
  Finset.sum_eq_zero fun d hd => by
    have hlt := (mem_subtree.mp hd).1
    have hle := (mem_subtree.mp hd).2.le
    omega

/-- What has reached `i` when the nodes from `k` on have passed their totals to their parents. -/
noncomputable def partialSum (f : Forest) (w : Nat → M) (k i : Nat) : M :=
  w i + ∑ c ∈ f.childrenFrom k i, f.subtreeSum w c

theorem partialSum_size (w : Nat → M) (i : Nat) : f.partialSum w f.size i = w i := by
  have hempty : f.childrenFrom f.size i = ∅ :=
    Finset.eq_empty_of_forall_notMem fun c hc =>
      Nat.not_lt.mpr (mem_childrenFrom.mp hc).2 (f.lt_size (mem_childrenFrom.mp hc).1)
  rw [partialSum, hempty, Finset.sum_empty, add_zero]

theorem partialSum_self (w : Nat → M) (hk : k ≤ i + 1) (hi : i < f.size) :
    f.partialSum w k i = f.subtreeSum w i := by
  have hall : f.childrenFrom k i = f.childrenFrom 0 i := by
    ext c
    simp only [mem_childrenFrom, Nat.zero_le, and_true, and_iff_left_iff_imp]
    exact fun h => hk.trans (f.parent_lt h)
  rw [partialSum, hall, subtreeSum_eq w hi]

theorem partialSum_parent (w : Nat → M) (hp : f.parent k = some p) :
    f.partialSum w k p = f.partialSum w (k + 1) p + f.subtreeSum w k := by
  have hinsert : f.childrenFrom k p = insert k (f.childrenFrom (k + 1) p) := by
    ext c
    simp only [mem_childrenFrom, Finset.mem_insert]
    refine ⟨fun ⟨h, hle⟩ => ?_, ?_⟩
    · rcases Nat.eq_or_lt_of_le hle with rfl | hlt
      · exact .inl rfl
      · exact .inr ⟨h, hlt⟩
    · rintro (rfl | ⟨h, hle⟩)
      · exact ⟨hp, le_refl _⟩
      · exact ⟨h, by omega⟩
  have hnot : k ∉ f.childrenFrom (k + 1) p := fun h => absurd (mem_childrenFrom.mp h).2 (by omega)
  rw [partialSum, hinsert, Finset.sum_insert hnot, partialSum, add_assoc,
    add_comm (f.subtreeSum w k)]

theorem partialSum_of_ne (w : Nat → M) (hp : f.parent k ≠ some i) :
    f.partialSum w k i = f.partialSum w (k + 1) i := by
  have hsame : f.childrenFrom k i = f.childrenFrom (k + 1) i := by
    ext c
    simp only [mem_childrenFrom]
    refine ⟨fun ⟨h, hle⟩ => ⟨h, ?_⟩, fun ⟨h, hle⟩ => ⟨h, by omega⟩⟩
    rcases Nat.eq_or_lt_of_le hle with rfl | hlt
    · exact absurd h hp
    · exact hlt
  rw [partialSum, hsame, partialSum]

end Sums

/-! ## A new leaf -/

/-- The forest with one more node. -/
def push (f : Forest) (p? : Option Nat) (h : ∀ p, p? = some p → p < f.size) : Forest where
  size := f.size + 1
  parent c := if c = f.size then p? else f.parent c
  parent_lt {c p} hp := by
    split at hp
    · exact (h p hp).trans_eq (Eq.symm ‹_›)
    · exact f.parent_lt hp
  lt_size {c p} hp := by
    split at hp
    · omega
    · exact (f.lt_size hp).trans (Nat.lt_succ_self _)

section Push

variable {p? : Option Nat} {h : ∀ p, p? = some p → p < f.size}

theorem parent_push_of_lt (hc : c < f.size) : (f.push p? h).parent c = f.parent c :=
  if_neg hc.ne

theorem descends_push_iff (hd : d < f.size) : (f.push p? h).Descends d c ↔ f.Descends d c := by
  constructor
  · intro hdesc
    induction hdesc using Relation.ReflTransGen.head_induction_on with
    | refl => exact .refl c
    | head hp _ ih =>
      rw [parent_push_of_lt hd] at hp
      exact (Descends.of_parent hp).trans (ih ((f.parent_lt hp).trans hd))
  · intro hdesc
    induction hdesc using Relation.ReflTransGen.head_induction_on with
    | refl => exact .refl c
    | head hp _ ih =>
      refine (Descends.of_parent ?_).trans (ih ((f.parent_lt hp).trans hd))
      rwa [parent_push_of_lt hd]

theorem subtreeSum_push {M : Type} [AddCommMonoid M] {w : Nat → M} (hw : w f.size = 0) (i : Nat) :
    (f.push p? h).subtreeSum w i = f.subtreeSum w i := by
  symm
  refine Finset.sum_subset (fun d hd => ?_) fun d hd hnot => ?_
  · obtain ⟨hlt, hdesc⟩ := mem_subtree.mp hd
    exact mem_subtree.mpr ⟨hlt.trans (Nat.lt_succ_self _), (descends_push_iff hlt).mpr hdesc⟩
  · obtain ⟨hlt, hdesc⟩ := mem_subtree.mp hd
    rcases Nat.lt_succ_iff_lt_or_eq.mp hlt with hold | rfl
    · exact absurd (mem_subtree.mpr ⟨hold, (descends_push_iff hold).mp hdesc⟩) hnot
    · exact hw

end Push

/-! ## Dropping the first nodes -/

/-- The forest without its first `n` nodes, the others renumbered. -/
def drop (f : Forest) (n : Nat) : Forest where
  size := f.size - n
  parent c := (f.parent (c + n)).bind fun p => if p < n then none else some (p - n)
  parent_lt {c p} hp := by
    obtain ⟨q, hq, hp⟩ := Option.bind_eq_some_iff.mp hp
    split at hp
    · cases hp
    · have hlt := f.parent_lt hq
      obtain rfl := Option.some.inj hp
      omega
  lt_size {c p} hp := by
    obtain ⟨q, hq, -⟩ := Option.bind_eq_some_iff.mp hp
    have hlt := f.lt_size hq
    omega

theorem parent_drop_iff {n : Nat} : (f.drop n).parent c = some p ↔ f.parent (c + n) = some (p + n) := by
  simp only [drop, Option.bind_eq_some_iff]
  constructor
  · rintro ⟨q, hq, hp⟩
    split at hp
    · cases hp
    · obtain rfl := Option.some.inj hp
      rw [hq, Nat.sub_add_cancel (by omega)]
  · intro hp
    exact ⟨p + n, hp, by rw [if_neg (by omega), Nat.add_sub_cancel]⟩

theorem descends_drop_iff {n : Nat} : (f.drop n).Descends d c ↔ f.Descends (d + n) (c + n) := by
  constructor
  · intro h
    induction h with
    | refl => exact .refl _
    | tail _ hp ih => exact ih.tail (parent_drop_iff.mp hp)
  · intro h
    obtain ⟨e, he⟩ : ∃ e, e = d + n := ⟨_, rfl⟩
    rw [← he] at h
    induction h using Relation.ReflTransGen.head_induction_on generalizing d with
    | refl =>
      obtain rfl : c = d := by omega
      exact .refl c
    | head hp h ih =>
      rename_i q
      have hle : c + n ≤ q := Descends.le h
      refine (Descends.of_parent (p := q - n) ?_).trans (ih (d := q - n) (by omega))
      rw [parent_drop_iff, ← he, hp, Nat.sub_add_cancel (by omega)]

theorem subtreeSum_drop {M : Type} [AddCommMonoid M] (w : Nat → M) (n i : Nat) :
    (f.drop n).subtreeSum w i = f.subtreeSum (fun d => w (d - n)) (i + n) := by
  refine Finset.sum_nbij' (· + n) (· - n) (fun d hd => ?_) (fun d hd => ?_) (fun d _ => ?_)
    (fun d hd => ?_) fun d _ => ?_
  · obtain ⟨hlt, hdesc⟩ := mem_subtree.mp hd
    have hlt' : d < f.size - n := hlt
    exact mem_subtree.mpr ⟨by omega, descends_drop_iff.mp hdesc⟩
  · obtain ⟨hlt, hdesc⟩ := mem_subtree.mp hd
    have hle := hdesc.le
    refine mem_subtree.mpr ⟨show d - n < f.size - n by omega, descends_drop_iff.mpr ?_⟩
    rwa [Nat.sub_add_cancel (by omega)]
  · exact Nat.add_sub_cancel d n
  · have hle := (mem_subtree.mp hd).2.le
    exact Nat.sub_add_cancel (by omega)
  · exact congrArg w (Nat.add_sub_cancel d n).symm

end Forest

end Lodestar.Base
