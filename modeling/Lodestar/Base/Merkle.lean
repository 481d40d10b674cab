import Mathlib.Data.Nat.Bitwise
import Mathlib.Data.Set.Function
import Mathlib.Tactic

/-!
# Merkle trees and branches

Binary trees whose inner nodes carry the hash of their children's roots, over
any type of roots and any two-to-one hash. A position is a depth and an index,
whose bits are read from the node up. A branch goes up from a node with the
roots of the siblings that it passes.
-/

namespace Lodestar.Base

inductive MerkleNode (α : Type) where
  | leaf (root : α)
  | branch (left right : MerkleNode α)

namespace MerkleNode

variable {α : Type} (hash : α → α → α)

def root : MerkleNode α → α
  | leaf root => root
  | branch left right => hash left.root right.root

/-- The pairs that are hashed for the root. -/
def hashed : MerkleNode α → Set (α × α)
  | leaf _ => ∅
  | branch left right => insert (left.root hash, right.root hash) (left.hashed ∪ right.hashed)

/-- The right child when `bit` is one. A leaf has none. -/
def child : MerkleNode α → (bit : Nat) → Option (MerkleNode α)
  | leaf _, _ => none
  | branch left right, bit => some (if bit ≠ 0 then right else left)

def nodeAt (t : MerkleNode α) : (depth index : Nat) → Option (MerkleNode α)
  | 0, _ => some t
  | depth + 1, index => (t.nodeAt depth (index / 2)).bind (·.child (index % 2))

/-- The node of a generalized index. -/
def getNode (t : MerkleNode α) (gindex : Nat) : Option (MerkleNode α) :=
  t.nodeAt gindex.log2 gindex

@[simp] theorem root_leaf (root : α) : (leaf root).root hash = root := rfl

@[simp] theorem root_branch (left right : MerkleNode α) :
    (branch left right).root hash = hash (left.root hash) (right.root hash) := rfl

variable {hash} {t m n : MerkleNode α} {depth index : Nat}

theorem nodeAt_succ : t.nodeAt (depth + 1) index =
    (t.nodeAt depth (index / 2)).bind (·.child (index % 2)) := rfl

theorem nodeAt_add_pow (d : Nat) (index k : Nat) :
    t.nodeAt d (index + 2 ^ d * k) = t.nodeAt d index := by
  induction d generalizing index with
  | zero => rfl
  | succ d ih =>
    have hdiv : (index + 2 ^ (d + 1) * k) / 2 = index / 2 + 2 ^ d * k := by
      rw [pow_succ', mul_assoc]
      omega
    have hmod : (index + 2 ^ (d + 1) * k) % 2 = index % 2 := by
      rw [pow_succ', mul_assoc]
      omega
    rw [nodeAt_succ, nodeAt_succ, hdiv, hmod, ih]

theorem nodeAt_succ_eq_some (h : t.nodeAt (depth + 1) index = some n) :
    ∃ left right, t.nodeAt depth (index / 2) = some (branch left right) ∧
      n = if index % 2 ≠ 0 then right else left := by
  rw [nodeAt_succ, Option.bind_eq_some_iff] at h
  obtain ⟨parent, hparent, hchild⟩ := h
  cases parent with
  | leaf _ => cases hchild
  | branch left right => exact ⟨left, right, hparent, (Option.some.inj hchild).symm⟩

theorem hashed_subset_of_nodeAt (h : t.nodeAt depth index = some n) :
    n.hashed hash ⊆ t.hashed hash := by
  induction depth generalizing index n with
  | zero => rw [← Option.some.inj h]
  | succ depth ih =>
    obtain ⟨left, right, hparent, rfl⟩ := nodeAt_succ_eq_some h
    refine fun pair hpair => ih hparent (Or.inr ?_)
    split_ifs at hpair with hbit
    · exact Or.inr hpair
    · exact Or.inl hpair

end MerkleNode

/-! ## Containers -/

namespace MerkleNode

variable {α : Type} {t l r n : MerkleNode α} {depth index : Nat}

/-- A tree with the nodes at a depth, in order, and leaves of `zero` after them. -/
def fill (zero : α) : (depth : Nat) → List (MerkleNode α) → MerkleNode α
  | 0, nodes => nodes.headD (leaf zero)
  | depth + 1, nodes =>
    branch (fill zero depth (nodes.take (2 ^ depth))) (fill zero depth (nodes.drop (2 ^ depth)))

theorem nodeAt_branch (depth index : Nat) : (branch l r).nodeAt (depth + 1) index =
    (if index / 2 ^ depth % 2 ≠ 0 then r else l).nodeAt depth index := by
  induction depth generalizing index with
  | zero =>
    rcases Nat.mod_two_eq_zero_or_one index with hbit | hbit
    · simp [nodeAt, child, hbit]
    · simp [nodeAt, child, hbit]
  | succ depth ih =>
    have hbit : index / 2 / 2 ^ depth = index / 2 ^ (depth + 1) := by
      rw [Nat.div_div_eq_div_mul, pow_succ']
    rw [nodeAt_succ, ih, hbit]
    rfl

theorem nodeAt_fill (zero : α) (depth : Nat) (nodes : List (MerkleNode α)) (hi : index < 2 ^ depth) :
    (fill zero depth nodes).nodeAt depth index = some (nodes.getD index (leaf zero)) := by
  induction depth generalizing index nodes with
  | zero =>
    obtain rfl : index = 0 := by simpa using hi
    cases nodes <;> rfl
  | succ depth ih =>
    unfold fill
    rw [nodeAt_branch]
    rw [pow_succ] at hi
    rcases lt_or_ge index (2 ^ depth) with hlt | hge
    · -- in the left half
      rw [Nat.div_eq_of_lt hlt, if_neg (by simp), ih _ hlt]
      simp [List.getD_eq_getElem?_getD, List.getElem?_take_of_lt hlt]
    · -- in the right half
      have hdiv : index / 2 ^ depth = 1 := Nat.div_eq_of_lt_le (by omega) (by omega)
      have hindex : index = index - 2 ^ depth + 2 ^ depth * 1 := by omega
      rw [hdiv, if_pos (by simp), hindex, nodeAt_add_pow, ih _ (by omega)]
      simp [List.getD_eq_getElem?_getD, List.getElem?_drop, Nat.add_comm]

theorem getNode_eq_nodeAt (hi : index < 2 ^ depth) :
    t.getNode (2 ^ depth + index) = t.nodeAt depth index := by
  have hlog : (2 ^ depth + index).log2 = depth := by
    rw [Nat.log2_eq_iff (by omega), pow_succ]
    omega
  unfold getNode
  rw [hlog]
  have hadd := nodeAt_add_pow (t := t) depth index 1
  rwa [Nat.mul_one, Nat.add_comm] at hadd

theorem exists_nodeAt_div (hn : t.nodeAt depth index = some n) {i : Nat} (hi : i ≤ depth) :
    ∃ m, t.nodeAt (depth - i) (index / 2 ^ i) = some m := by
  induction i with
  | zero => exact ⟨n, by simpa using hn⟩
  | succ i ih =>
    obtain ⟨m, hm⟩ := ih (by omega)
    rw [show depth - i = depth - (i + 1) + 1 by omega] at hm
    obtain ⟨l, r, hparent, -⟩ := nodeAt_succ_eq_some hm
    rw [Nat.div_div_eq_div_mul, ← pow_succ] at hparent
    exact ⟨_, hparent⟩

theorem xor_one_div_two (a : Nat) : (a ^^^ 1) / 2 = a / 2 := by
  rw [Nat.xor_div_two]
  simp

theorem xor_one_mod_two (a : Nat) : (a ^^^ 1) % 2 = (a + 1) % 2 := Nat.xor_mod_two_eq

theorem exists_sibling (hn : t.nodeAt depth index = some n) {i : Nat} (hi : i < depth) :
    ∃ sibling, t.nodeAt (depth - i) (index / 2 ^ i ^^^ 1) = some sibling := by
  obtain ⟨m, hm⟩ := exists_nodeAt_div hn hi.le
  rw [show depth - i = depth - (i + 1) + 1 by omega] at hm ⊢
  obtain ⟨l, r, hparent, -⟩ := nodeAt_succ_eq_some hm
  rw [nodeAt_succ, xor_one_div_two, hparent]
  exact ⟨_, rfl⟩

end MerkleNode

/-! ## Branches -/

section

variable {α : Type} (hash : α → α → α)

/-- A value and the next element of the branch, in the order they are hashed. -/
def branchPair (index i : Nat) (p v : α) : α × α :=
  if index / 2 ^ i % 2 ≠ 0 then (p, v) else (v, p)

/-- The value after `i` steps, when the branch has as many elements. -/
def branchValue (leaf : α) (branch : List α) (index : Nat) : (i : Nat) → Option α
  | 0 => some leaf
  | i + 1 => do
    let v ← branchValue leaf branch index i
    let p ← branch[i]?
    return Function.uncurry hash (branchPair index i p v)

/-- The pairs that are hashed in the first `depth` steps. -/
def branchHashed (leaf : α) (branch : List α) (depth index : Nat) : Set (α × α) :=
  {pair | ∃ i < depth, ∃ v p, branchValue hash leaf branch index i = some v ∧ branch[i]? = some p ∧
    pair = branchPair index i p v}

variable {hash} {leaf : α} {branch : List α} {index : Nat}

theorem branchValue_succ_eq_some {i : Nat} {w : α}
    (h : branchValue hash leaf branch index (i + 1) = some w) :
    ∃ v p, branchValue hash leaf branch index i = some v ∧ branch[i]? = some p ∧
      w = Function.uncurry hash (branchPair index i p v) := by
  unfold branchValue at h
  simp only [Option.bind_eq_bind, Option.bind_eq_some_iff, Option.pure_def, Option.some.injEq] at h
  obtain ⟨v, hv, p, hp, rfl⟩ := h
  exact ⟨v, p, hv, hp, rfl⟩

end

namespace MerkleNode

variable {α : Type} {hash : α → α → α} {t n : MerkleNode α} {depth index : Nat} {branch : List α}

/-- The branch has the roots of the siblings of the nodes from a position up. -/
def IsBranch (hash : α → α → α) (t : MerkleNode α) (depth index : Nat) (branch : List α) : Prop :=
  ∀ i < depth, ∃ sibling, t.nodeAt (depth - i) (index / 2 ^ i ^^^ 1) = some sibling ∧
    branch[i]? = some (sibling.root hash)

theorem IsBranch.branchValue (h : t.IsBranch hash depth index branch)
    (hn : t.nodeAt depth index = some n) {i : Nat} (hi : i ≤ depth) :
    ∃ m, t.nodeAt (depth - i) (index / 2 ^ i) = some m ∧
      branchValue hash (n.root hash) branch index i = some (m.root hash) := by
  induction i with
  | zero => exact ⟨n, by simpa using hn, rfl⟩
  | succ i ih =>
    obtain ⟨m, hm, hvalue⟩ := ih (by omega)
    obtain ⟨sibling, hsibling, hp⟩ := h i (by omega)
    have hdepth : depth - i = depth - (i + 1) + 1 := by omega
    rw [hdepth] at hm hsibling
    obtain ⟨left, right, hparent, rfl⟩ := nodeAt_succ_eq_some hm
    -- the sibling is the other child of the same node
    have hother : sibling = if index / 2 ^ i % 2 ≠ 0 then left else right := by
      obtain ⟨left', right', hparent', rfl⟩ := nodeAt_succ_eq_some hsibling
      rw [xor_one_div_two, hparent] at hparent'
      cases hparent'
      rw [xor_one_mod_two]
      rcases Nat.mod_two_eq_zero_or_one (index / 2 ^ i) with hbit | hbit
      · simp [hbit, Nat.add_mod]
      · simp [hbit, Nat.add_mod]
    have hindex : index / 2 ^ i / 2 = index / 2 ^ (i + 1) := by
      rw [Nat.div_div_eq_div_mul, pow_succ]
    refine ⟨.branch left right, hindex ▸ hparent, ?_⟩
    subst hother
    unfold Base.branchValue
    rw [hvalue, hp]
    by_cases hbit : index / 2 ^ i % 2 ≠ 0
    · simp [branchPair, hbit]
    · simp [branchPair, hbit]

theorem IsBranch.branchValue_depth (h : t.IsBranch hash depth index branch)
    (hn : t.nodeAt depth index = some n) :
    Base.branchValue hash (n.root hash) branch index depth = some (t.root hash) := by
  obtain ⟨m, hm, hvalue⟩ := h.branchValue hn le_rfl
  rw [Nat.sub_self] at hm
  rwa [← Option.some.inj hm] at hvalue

/-- A branch that goes up to the root of a tree passes the roots of its nodes, unless two pairs
that are hashed collide. -/
theorem branchValue_eq_root {leaf : α}
    (hfree : (t.hashed hash ∪ branchHashed hash leaf branch depth index).InjOn
      (Function.uncurry hash))
    (hbranch : Base.branchValue hash leaf branch index depth = some (t.root hash))
    {k : Nat} (hk : k ≤ depth) (hn : t.nodeAt k (index / 2 ^ (depth - k)) = some n) :
    Base.branchValue hash leaf branch index (depth - k) = some (n.root hash) := by
  induction k generalizing n with
  | zero => rwa [← Option.some.inj hn]
  | succ k ih =>
    have hdepth : depth - k = depth - (k + 1) + 1 := by omega
    obtain ⟨left, right, hparent, rfl⟩ := nodeAt_succ_eq_some hn
    have hindex : index / 2 ^ (depth - (k + 1)) / 2 = index / 2 ^ (depth - k) := by
      rw [Nat.div_div_eq_div_mul, hdepth, pow_succ]
    rw [hindex] at hparent
    have hvalue := ih (by omega) hparent
    rw [hdepth] at hvalue
    obtain ⟨v, p, hv, hp, hhash⟩ := branchValue_succ_eq_some hvalue
    -- both pairs are hashed to the root of the node above
    have hpair : (left.root hash, right.root hash) = branchPair index (depth - (k + 1)) p v := by
      refine hfree (Or.inl ?_) (Or.inr ⟨_, by omega, v, p, hv, hp, rfl⟩) hhash
      exact hashed_subset_of_nodeAt hparent (Or.inl rfl)
    rw [hv]
    unfold branchPair at hpair
    split_ifs at hpair ⊢ with hbit
    · simp_all
    · simp_all

end MerkleNode

end Lodestar.Base
