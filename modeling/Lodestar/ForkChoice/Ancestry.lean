import Lodestar.ForkChoice.Chains

/-!
# What the ancestor queries answer

`isDescendant` and `getCommonAncestor` compare slots to stop early, and
`getAllNonAncestorNodes` collects the gaps between parents. The last gap ends
before the first node, which is missed when the block is on a branch that
pruning cut off.
-/

namespace Lodestar.ForkChoice

open Lodestar.Base

namespace ProtoArray

variable {this : ProtoArray} {i j a b : Nat} {r : RootHex} {x y node : IProtoNode}

/-! ## Descendants -/

theorem SlotsIncrease.slot_le (hs : this.SlotsIncrease) (h : this.Tree)
    (hd : (this.forest h).Descends i a) (hx : this.nodes[i]? = some x)
    (hnode : this.nodes[a]? = some node) : node.slot ≤ x.slot := by
  by_cases hne : i = a
  · subst hne
    rw [Option.some.inj (hx.symm.trans hnode)]
  · exact (hs.of_descends h hd hne hx hnode).le

/-- The slots of the list fall, so that what is below the slot of the ancestor need not be
looked at. -/
theorem reachesNode_iff {nodes : List IProtoNode}
    (hslots : nodes.Pairwise fun child ancestor => ancestor.slot < child.slot)
    (hroot : ∀ n ∈ nodes, n.blockRoot = node.blockRoot → node.slot ≤ n.slot) :
    reachesNode node nodes = true ↔ ∃ n ∈ nodes, n.blockRoot = node.blockRoot := by
  induction nodes with
  | nil => simp [reachesNode]
  | cons n nodes ih =>
    obtain ⟨hbelow, hslots⟩ := List.pairwise_cons.mp hslots
    rw [reachesNode]
    split_ifs with hlt heq
    · refine iff_of_false (fun hfalse => hfalse) ?_
      rintro ⟨m, hm, hmroot⟩
      have hle := hroot m hm hmroot
      rcases List.mem_cons.mp hm with rfl | hm
      · omega
      · have := hbelow m hm
        omega
    · exact iff_of_true rfl ⟨n, List.mem_cons_self, heq⟩
    · rw [ih hslots fun m hm => hroot m (List.mem_cons_of_mem n hm)]
      simp [heq]

theorem isDescendant_eq (h : this.Tree) (hs : this.SlotsIncrease)
    (ancestorRoot descendantRoot : RootHex) :
    ∃ answer, isDescendant this ancestorRoot descendantRoot = .ok answer ∧
      (answer = true ↔ this.IsDescendant ancestorRoot descendantRoot) := by
  unfold isDescendant
  cases ha : this.indices[ancestorRoot]? with
  | none =>
    have hnone : this.getNode ancestorRoot = none := by rw [getNode, ha]; rfl
    rw [hnone]
    refine ⟨false, rfl, iff_of_false Bool.false_ne_true ?_⟩
    rintro ⟨a, i, ha', -⟩
    rw [ha] at ha'
    cases ha'
  | some a =>
    obtain ⟨ancestor, hancestor, hget, hroot⟩ := exists_getNode h ha
    rw [hget]
    by_cases hsame : ancestorRoot = descendantRoot
    · subst hsame
      exact ⟨true, if_pos rfl, iff_of_true rfl (.refl ha)⟩
    simp only [if_neg hsame]
    cases hi : this.indices[descendantRoot]? with
    | none =>
      refine ⟨false, by rw [iterateAncestorNodes, hi]; rfl, iff_of_false Bool.false_ne_true ?_⟩
      rintro ⟨-, i, -, hi', -⟩
      rw [hi] at hi'
      cases hi'
    | some i =>
      obtain ⟨x, hx, -, hxroot⟩ := exists_getNode h hi
      rw [iterateAncestorNodes_eq h hi]
      refine ⟨_, rfl, ?_⟩
      -- the ancestors are the rest of the chain
      have hchain := hs.pairwise_chain h i
      rw [chain_eq_cons h hx, List.pairwise_cons] at hchain
      have hnode : ∀ {c n}, this.nodes[c]? = some n → n.blockRoot = ancestor.blockRoot → c = a :=
        fun hc heq => h.root_inj hc hancestor heq
      rw [reachesNode_iff hchain.2 fun n hn heq => by
        obtain ⟨c, -, hc⟩ := List.mem_filterMap.mp hn
        obtain rfl := hnode hc heq
        rw [Option.some.inj (hc.symm.trans hancestor)]]
      constructor
      · rintro ⟨n, hn, heq⟩
        obtain ⟨c, hc, hcn⟩ := List.mem_filterMap.mp hn
        obtain rfl := hnode hcn heq
        exact ⟨c, i, ha, hi, (Forest.mem_ancestors.mp hc).1⟩
      · rintro ⟨a', i', ha', hi', hd⟩
        obtain rfl : a = a' := Option.some.inj (ha.symm.trans ha')
        obtain rfl : i = i' := Option.some.inj (hi.symm.trans hi')
        refine ⟨ancestor, List.mem_filterMap.mpr ⟨a, Forest.mem_ancestors.mpr ⟨hd, ?_⟩, hancestor⟩,
          rfl⟩
        rintro rfl
        rw [hx] at hancestor
        obtain rfl := Option.some.inj hancestor
        exact hsame (hroot.symm.trans hxroot)

/-! ## Common ancestors -/

/-- The loop of `getCommonAncestor`; each turn moves one node or both to the parent. -/
def commonAncestorFrom (this : ProtoArray) :
    Nat → IProtoNode → IProtoNode → Except ProtoArrayError (Option IProtoNode)
  | 0, _, _ => .ok none
  | fuel + 1, nodeA, nodeB =>
    if nodeA.slot > nodeB.slot then
      match nodeA.parent with
      | none => .ok none
      | some parentA => do
        let nodeA ← this.getNodeFromIndex parentA
        this.commonAncestorFrom fuel nodeA nodeB
    else if nodeA.slot < nodeB.slot then
      match nodeB.parent with
      | none => .ok none
      | some parentB => do
        let nodeB ← this.getNodeFromIndex parentB
        this.commonAncestorFrom fuel nodeA nodeB
    else if nodeA.blockRoot = nodeB.blockRoot then .ok (some nodeA)
    else
      match nodeA.parent, nodeB.parent with
      | some parentA, some parentB => do
        let nodeA ← this.getNodeFromIndex parentA
        let nodeB ← this.getNodeFromIndex parentB
        this.commonAncestorFrom fuel nodeA nodeB
      | _, _ => .ok none

/-- Two chains have no more nodes than twice the array. -/
def getCommonAncestor (this : ProtoArray) (nodeA nodeB : IProtoNode) :
    Except ProtoArrayError (Option IProtoNode) :=
  this.commonAncestorFrom (2 * this.nodes.length) nodeA nodeB

/-- The node at `a` is that at `i` or above it, and that at `j` or above it. -/
def IsCommonAncestor (this : ProtoArray) (i j a : Nat) : Prop :=
  Relation.ReflTransGen (fun c p => this.parentOf c = some p) i a ∧
    Relation.ReflTransGen (fun c p => this.parentOf c = some p) j a

/-- The answer is the deepest common ancestor: every other one is above it. -/
def IsDeepest (this : ProtoArray) (i j : Nat) : Option IProtoNode → Prop
  | some node => ∃ a, this.nodes[a]? = some node ∧ this.IsCommonAncestor i j a ∧
      ∀ b, this.IsCommonAncestor i j b →
        Relation.ReflTransGen (fun c p => this.parentOf c = some p) a b
  | none => ∀ a, ¬ this.IsCommonAncestor i j a

theorem IsDeepest.congr {i' j' : Nat} {answer : Option IProtoNode}
    (hcongr : ∀ a, this.IsCommonAncestor i j a ↔ this.IsCommonAncestor i' j' a)
    (hdeepest : this.IsDeepest i' j' answer) : this.IsDeepest i j answer := by
  cases answer with
  | none => exact fun a ha => hdeepest a ((hcongr a).mp ha)
  | some node =>
    obtain ⟨a, hnode, hcommon, hlast⟩ := hdeepest
    exact ⟨a, hnode, (hcongr a).mpr hcommon, fun b hb => hlast b ((hcongr b).mp hb)⟩

theorem isCommonAncestor_comm : this.IsCommonAncestor i j a ↔ this.IsCommonAncestor j i a :=
  and_comm

/-- A node that is not above the other one is no common ancestor: its parent takes its place. -/
theorem isCommonAncestor_iff_parent (h : this.Tree) {p : Nat} (hp : this.parentOf i = some p)
    (hnot : ¬ (this.forest h).Descends j i) :
    this.IsCommonAncestor i j a ↔ this.IsCommonAncestor p j a := by
  constructor
  · rintro ⟨hi, hj⟩
    have hd : (this.forest h).Descends i a := hi
    obtain ⟨q, hq, hd⟩ := hd.exists_parent fun heq => hnot (heq ▸ hj)
    obtain rfl : q = p := Option.some.inj (hq.symm.trans hp)
    exact ⟨hd, hj⟩
  · rintro ⟨hi, hj⟩
    exact ⟨.head hp hi, hj⟩

theorem not_isCommonAncestor_of_root (h : this.Tree) (hp : this.parentOf i = none)
    (hnot : ¬ (this.forest h).Descends j i) : ¬ this.IsCommonAncestor i j a := by
  rintro ⟨hi, hj⟩
  have hd : (this.forest h).Descends i a := hi
  obtain ⟨q, hq, -⟩ := hd.exists_parent fun heq => hnot (heq ▸ hj)
  exact absurd (hp.symm.trans hq) (by simp)

theorem exists_parent_node (h : this.Tree) (hx : this.nodes[i]? = some x) {p : Nat}
    (hp : x.parent = some p) :
    this.parentOf i = some p ∧ p < i ∧ ∃ parent, this.nodes[p]? = some parent := by
  have hparent : this.parentOf i = some p := by
    rw [parentOf, hx]
    exact hp
  have hlt := h.parent_lt hparent
  have hlen := (List.getElem?_eq_some_iff.mp hx).1
  exact ⟨hparent, hlt, this.nodes[p], List.getElem?_eq_getElem (hlt.trans hlen)⟩

/-- Of two different nodes that are at one slot, or one of which is later, the other is not below
it. -/
theorem SlotsIncrease.not_descends (hs : this.SlotsIncrease) (h : this.Tree)
    (hx : this.nodes[i]? = some x) (hy : this.nodes[j]? = some y) (hslot : y.slot ≤ x.slot)
    (hne : x.blockRoot ≠ y.blockRoot) : ¬ (this.forest h).Descends j i := by
  intro hd
  have hij : j ≠ i := by
    rintro rfl
    exact hne (by rw [Option.some.inj (hx.symm.trans hy)])
  have := hs.of_descends h hd hij hy hx
  omega

theorem commonAncestorFrom_eq (h : this.Tree) (hs : this.SlotsIncrease) {fuel : Nat}
    (hx : this.nodes[i]? = some x) (hy : this.nodes[j]? = some y) (hfuel : i + j < fuel) :
    ∃ answer, this.commonAncestorFrom fuel x y = .ok answer ∧ this.IsDeepest i j answer := by
  induction fuel generalizing i j x y with
  | zero => exact absurd hfuel (Nat.not_lt_zero _)
  | succ fuel ih =>
    have hroot : ∀ {k : Nat} {n : IProtoNode}, this.nodes[k]? = some n → n.parent = none →
        this.parentOf k = none := by
      intro k n hn hnone
      rw [parentOf, hn]
      exact hnone
    rw [commonAncestorFrom]
    split_ifs with hgt hlt heq
    · -- `nodeA` is higher
      have hnot : ¬ (this.forest h).Descends j i := fun hd => by
        have := hs.slot_le h hd hy hx
        omega
      cases hp : x.parent with
      | none =>
        exact ⟨none, rfl, fun a => not_isCommonAncestor_of_root h (hroot hx hp) hnot⟩
      | some p =>
        obtain ⟨hparent, hpi, parent, hget⟩ := exists_parent_node h hx hp
        obtain ⟨answer, hanswer, hdeepest⟩ := ih hget hy (by omega)
        refine ⟨answer, ?_, hdeepest.congr fun a => isCommonAncestor_iff_parent h hparent hnot⟩
        simp only [getNodeFromIndex, hget]
        exact hanswer
    · -- `nodeB` is higher
      have hnot : ¬ (this.forest h).Descends i j := fun hd => by
        have := hs.slot_le h hd hx hy
        omega
      cases hp : y.parent with
      | none =>
        exact ⟨none, rfl, fun a ha => not_isCommonAncestor_of_root h (hroot hy hp) hnot
          (isCommonAncestor_comm.mp ha)⟩
      | some p =>
        obtain ⟨hparent, hpj, parent, hget⟩ := exists_parent_node h hy hp
        obtain ⟨answer, hanswer, hdeepest⟩ := ih hx hget (by omega)
        refine ⟨answer, ?_, hdeepest.congr fun a => ?_⟩
        · simp only [getNodeFromIndex, hget]
          exact hanswer
        · rw [isCommonAncestor_comm, isCommonAncestor_iff_parent h hparent hnot,
            isCommonAncestor_comm]
    · -- the same block
      obtain rfl := h.root_inj hx hy heq
      exact ⟨some x, rfl, i, hx, ⟨.refl, .refl⟩, fun b hb => hb.1⟩
    · -- different blocks at one slot, none of which is above the other
      have hnot := hs.not_descends h hx hy (by omega) heq
      have hnot' := hs.not_descends h hy hx (by omega) (Ne.symm heq)
      cases hp : x.parent with
      | none => exact ⟨none, rfl, fun a => not_isCommonAncestor_of_root h (hroot hx hp) hnot⟩
      | some p =>
        obtain ⟨hparent, hpi, parent, hget⟩ := exists_parent_node h hx hp
        cases hq : y.parent with
        | none =>
          exact ⟨none, rfl, fun a ha => not_isCommonAncestor_of_root h (hroot hy hq) hnot'
            (isCommonAncestor_comm.mp ha)⟩
        | some q =>
          obtain ⟨hparent', hqj, parent', hget'⟩ := exists_parent_node h hy hq
          obtain ⟨answer, hanswer, hdeepest⟩ := ih hget hget' (by omega)
          refine ⟨answer, ?_, hdeepest.congr fun a => ?_⟩
          · simp only [getNodeFromIndex, hget, hget']
            exact hanswer
          · -- `nodeB` is not below the parent of `nodeA` either
            have hslot : parent.slot < x.slot := hs x (List.mem_of_getElem? hx) parent (by
              rw [hp]
              exact hget)
            have hnot'' : ¬ (this.forest h).Descends p j := fun hd => by
              have := hs.slot_le h hd hget hy
              omega
            rw [isCommonAncestor_iff_parent h hparent hnot, isCommonAncestor_comm,
              isCommonAncestor_iff_parent h hparent' hnot'', isCommonAncestor_comm]

/-- Both queries, on the nodes of any array a run reaches. -/
theorem isDescendant_and_getCommonAncestor (hr : this.Reachable) (hs : this.SlotsIncrease) :
    (∀ ancestorRoot descendantRoot, ∃ answer,
      isDescendant this ancestorRoot descendantRoot = .ok answer ∧
        (answer = true ↔ this.IsDescendant ancestorRoot descendantRoot)) ∧
      ∀ (i j : Nat) (x y : IProtoNode), this.nodes[i]? = some x → this.nodes[j]? = some y →
        ∃ answer, this.getCommonAncestor x y = .ok answer ∧ this.IsDeepest i j answer := by
  have h := hr.wf.toTree
  refine ⟨isDescendant_eq h hs, fun i j x y hx hy => ?_⟩
  have hi := (List.getElem?_eq_some_iff.mp hx).1
  have hj := (List.getElem?_eq_some_iff.mp hy).1
  exact commonAncestorFrom_eq h hs hx hy (by omega)

theorem isDescendant_and_getCommonAncestor_staleArray :
    (∃ answer, isDescendant staleArray 0xaa 0xbb = .ok answer ∧
      (answer = true ↔ staleArray.IsDescendant 0xaa 0xbb)) ∧
      ∃ x y, staleArray.nodes[1]? = some x ∧ staleArray.nodes[2]? = some y ∧
        ∃ answer, staleArray.getCommonAncestor x y = .ok answer ∧
          staleArray.IsDeepest 1 2 answer := by
  have hqueries := isDescendant_and_getCommonAncestor staleArray_reachable (by decide +kernel)
  have hlen : staleArray.nodes.length = 3 := by decide +kernel
  refine ⟨hqueries.1 0xaa 0xbb, ?_⟩
  have hx : staleArray.nodes[1]? = some staleArray.nodes[1] := List.getElem?_eq_getElem (by omega)
  have hy : staleArray.nodes[2]? = some staleArray.nodes[2] := List.getElem?_eq_getElem (by omega)
  exact ⟨_, _, hx, hy, hqueries.2 1 2 _ _ hx hy⟩

/-! ## Everything up to a block -/

theorem getNodesBetween_perm {lower upper : Nat} (hlower : lower < upper)
    (hupper : upper ≤ this.nodes.length) :
    ∃ nodes, this.getNodesBetween lower upper = .ok nodes ∧
      (this.nodes.take (lower + 1) ++ nodes).Perm (this.nodes.take upper) := by
  induction upper with
  | zero => exact absurd hlower (Nat.not_lt_zero lower)
  | succ index ih =>
    rw [getNodesBetween]
    by_cases hgt : index > lower
    · obtain ⟨nodes, hnodes, hperm⟩ := ih hgt (by omega)
      have hget : this.nodes[index]? = some this.nodes[index] := List.getElem?_eq_getElem hupper
      rw [if_pos hgt]
      refine ⟨this.nodes[index] :: nodes, ?_, ?_⟩
      · simp only [getNodeFromIndex, hget, hnodes]
        rfl
      · rw [List.take_succ_eq_append_getElem hupper]
        exact List.perm_middle.trans
          ((List.perm_append_singleton _ _).symm.trans (hperm.append_right [this.nodes[index]]))
    · obtain rfl : index = lower := by omega
      rw [if_neg hgt]
      exact ⟨[], rfl, by rw [List.append_nil]⟩

theorem getNodesBetween_perm_of_root (h : this.Tree) (hx : this.nodes[i]? = some x)
    (hnone : (this.forest h).parent i = none) :
    ∃ nodes missed, this.getNodesBetween 0 i = .ok nodes ∧
      (this.chain h i ++ nodes ++ missed).Perm (this.nodes.take (i + 1)) ∧
      (missed = [] ↔ (this.forest h).Descends i 0) := by
  obtain ⟨hlen, hxi⟩ := List.getElem?_eq_some_iff.mp hx
  have hchain : this.chain h i = [this.nodes[i]] := by
    rw [chain_eq_cons h hx, Forest.ancestors_of_none hnone, hxi]
    rfl
  rw [hchain, List.take_succ_eq_append_getElem hlen]
  rcases Nat.eq_zero_or_pos i with rfl | hpos
  · exact ⟨[], [], rfl, .refl _, iff_of_true rfl (.refl 0)⟩
  · obtain ⟨nodes, hnodes, hperm⟩ := getNodesBetween_perm hpos hlen.le
    refine ⟨nodes, this.nodes.take 1, hnodes, ?_, iff_of_false ?_ fun hd => ?_⟩
    · rw [List.append_assoc]
      exact List.perm_append_comm.trans
        ((List.perm_append_comm.trans hperm).append_right [this.nodes[i]])
    · rw [List.take_eq_nil_iff, not_or]
      exact ⟨Nat.one_ne_zero, fun hnil => by rw [hnil] at hlen; cases hlen⟩
    · obtain ⟨q, hq, -⟩ := hd.exists_parent hpos.ne'
      exact absurd (hnone.symm.trans hq) (by simp)

/-- The chain, what the loop collects and the node it may miss are the nodes up to the start. -/
theorem nonAncestorNodesFrom_perm (h : this.Tree) {fuel : Nat} (hx : this.nodes[i]? = some x)
    (hi : i ≤ fuel) :
    ∃ nodes missed, this.nonAncestorNodesFrom fuel i x = .ok nodes ∧
      (this.chain h i ++ nodes ++ missed).Perm (this.nodes.take (i + 1)) ∧
      (missed = [] ↔ (this.forest h).Descends i 0) := by
  have hlen : i < this.nodes.length := (List.getElem?_eq_some_iff.mp hx).1
  induction fuel generalizing i x with
  | zero =>
    obtain rfl := Nat.le_zero.mp hi
    refine getNodesBetween_perm_of_root h hx ?_
    cases hp : (this.forest h).parent 0 with
    | none => rfl
    | some p => exact absurd ((this.forest h).parent_lt hp) (Nat.not_lt_zero p)
  | succ fuel ih =>
    rw [nonAncestorNodesFrom]
    cases hp : x.parent with
    | none => exact getNodesBetween_perm_of_root h hx ((forest_parent h hx).trans hp)
    | some p =>
      have hparent := (forest_parent h hx).trans hp
      have hlt : p < i := (this.forest h).parent_lt hparent
      have hget : this.nodes[p]? = some this.nodes[p] := List.getElem?_eq_getElem (hlt.trans hlen)
      obtain ⟨between, hbetween, hupper⟩ := getNodesBetween_perm hlt hlen.le
      obtain ⟨nodes, missed, hnodes, hlower, hmissed⟩ := ih hget (by omega) (hlt.trans hlen)
      refine ⟨between ++ nodes, missed, ?_, ?_, hmissed.trans ?_⟩
      · simp only [getNodeFromIndex, hget, hbetween]
        show (this.nonAncestorNodesFrom fuel p this.nodes[p] >>= fun nodes =>
          pure (between ++ nodes)) = _
        rw [hnodes]
        rfl
      · -- what the parent accounts for comes first, then the gap, then the node
        have hchain : this.chain h i = x :: this.chain h p := by
          rw [chain_eq_cons h hx, Forest.ancestors_of_some hparent]
          rfl
        have hgap : (this.chain h p ++ nodes ++ missed ++ between).Perm (this.nodes.take i) :=
          (hlower.append_right between).trans hupper
        rw [List.take_succ_eq_append_getElem hlen, hchain]
        obtain ⟨-, rfl⟩ := List.getElem?_eq_some_iff.mp hx
        refine List.Perm.trans ?_ (hgap.append_right [this.nodes[i]])
        rw [← Multiset.coe_eq_coe]
        simp only [← Multiset.coe_add, ← Multiset.cons_coe, ← Multiset.singleton_add]
        abel
      · constructor
        · exact fun hd => .head hparent hd
        · intro hd
          obtain ⟨q, hq, hd⟩ := hd.exists_parent (by omega)
          obtain rfl : q = p := Option.some.inj (hq.symm.trans hparent)
          exact hd

theorem getAllNonAncestorNodes_perm (h : this.Tree) (hi : this.indices[r]? = some i) :
    ∃ nodes missed, this.getAllNonAncestorNodes r = .ok nodes ∧
      (this.chain h i ++ nodes ++ missed).Perm (this.nodes.take (i + 1)) ∧
      (missed = [] ↔ (this.forest h).Descends i 0) := by
  obtain ⟨x, hx, -⟩ := h.indices_iff.mp hi
  rw [getAllNonAncestorNodes, hi]
  simp only [getNodeFromIndex, hx]
  exact nonAncestorNodesFrom_perm h hx le_rfl

/-- Both lists together hold every node up to the block once. The first one is the block and its
ancestors, by falling slots. -/
def ListsPartition (this : ProtoArray) (r : RootHex) (i : Nat) : Prop :=
  ∃ ancestors nonAncestors, this.getAllAncestorNodes r = .ok ancestors ∧
    this.getAllNonAncestorNodes r = .ok nonAncestors ∧
    (ancestors ++ nonAncestors).Perm (this.nodes.take (i + 1)) ∧
    (∀ node, node ∈ ancestors ↔
      ∃ a, Relation.ReflTransGen (fun c p => this.parentOf c = some p) i a ∧
        this.nodes[a]? = some node) ∧
    ancestors.Pairwise fun child ancestor => ancestor.slot < child.slot

theorem descends_zero_iff (h : this.Tree) (hi : this.indices[r]? = some i) :
    (this.forest h).Descends i 0 ↔
      ∃ first ∈ this.nodes.head?, this.IsDescendant first.blockRoot r := by
  obtain ⟨x, hx, -⟩ := h.indices_iff.mp hi
  have hlen : 0 < this.nodes.length := Nat.zero_lt_of_lt (List.getElem?_eq_some_iff.mp hx).1
  have hfirst : this.nodes[0]? = some this.nodes[0] := List.getElem?_eq_getElem hlen
  have hzero : this.indices[this.nodes[0].blockRoot]? = some 0 :=
    h.indices_iff.mpr ⟨_, hfirst, rfl⟩
  rw [List.head?_eq_getElem?, hfirst]
  constructor
  · exact fun hd => ⟨_, rfl, 0, i, hzero, hi, hd⟩
  · rintro ⟨first, hhead, a, i', ha, hi', hd⟩
    obtain rfl := Option.some.inj (Option.mem_def.mp hhead)
    obtain rfl : 0 = a := Option.some.inj (hzero.symm.trans ha)
    obtain rfl : i = i' := Option.some.inj (hi.symm.trans hi')
    exact hd

/-- The lists miss the first node exactly where the chain of the block does not end at it. -/
theorem listsPartition_iff (hr : this.Reachable) (hs : this.SlotsIncrease)
    (hi : this.indices[r]? = some i) :
    this.ListsPartition r i ↔
      ∃ first ∈ this.nodes.head?, this.IsDescendant first.blockRoot r := by
  have h := hr.wf.toTree
  obtain ⟨nodes, missed, hnodes, hperm, hmissed⟩ := getAllNonAncestorNodes_perm h hi
  rw [← descends_zero_iff h hi, ← hmissed]
  constructor
  · rintro ⟨ancestors, nonAncestors, hancestors, hnon, hpartition, -⟩
    obtain rfl := Except.ok.inj ((getAllAncestorNodes_eq h hi).symm.trans hancestors)
    obtain rfl := Except.ok.inj (hnodes.symm.trans hnon)
    -- both have as many nodes as there are up to the block
    have hlen := hpartition.length_eq.trans hperm.length_eq.symm
    rw [@List.length_append _ _ missed] at hlen
    exact List.eq_nil_of_length_eq_zero (by omega)
  · rintro rfl
    rw [List.append_nil] at hperm
    exact ⟨_, _, getAllAncestorNodes_eq h hi, hnodes, hperm, fun node => mem_chain h,
      hs.pairwise_chain h i⟩

theorem listsPartition_iff_staleArray :
    staleArray.ListsPartition 0xbb 2 ↔
      ∃ first ∈ staleArray.nodes.head?, staleArray.IsDescendant first.blockRoot 0xbb :=
  listsPartition_iff staleArray_reachable (by decide +kernel) (by decide +kernel)

/-- What is left of the array when the first child is finalized: the second child has lost its
parent. -/
def prunedArray : ProtoArray :=
  okOr ([], staleArray) (staleArray.maybePrune 0xcc) |>.2

theorem prunedArray_reachable : prunedArray.Reachable := by
  have hprune : staleArray.maybePrune 0xcc =
      .ok (okOr ([], staleArray) (staleArray.maybePrune 0xcc)) :=
    eq_ok_okOr _ (by decide +kernel)
  exact staleArray_reachable.step (.maybePrune 0xcc _ hprune)

/-- The finalized block is in neither list of the other child. -/
theorem prunedArray_not_listsPartition :
    prunedArray.Reachable ∧ prunedArray.SlotsIncrease ∧
      prunedArray.indices[(0xbb : RootHex)]? = some 1 ∧ ¬ prunedArray.ListsPartition 0xbb 1 := by
  refine ⟨prunedArray_reachable, by decide +kernel, by decide +kernel, ?_⟩
  rintro ⟨ancestors, nonAncestors, hancestors, hnon, hpartition, -⟩
  have hone : (prunedArray.getAllAncestorNodes 0xbb).map List.length = .ok 1 := by decide +kernel
  have hzero : (prunedArray.getAllNonAncestorNodes 0xbb).map List.length = .ok 0 := by
    decide +kernel
  have htwo : (prunedArray.nodes.take 2).length = 2 := by decide +kernel
  rw [hancestors] at hone
  rw [hnon] at hzero
  have hone : ancestors.length = 1 := Except.ok.inj hone
  have hzero : nonAncestors.length = 0 := Except.ok.inj hzero
  have hlen := hpartition.length_eq
  rw [List.length_append, hone, hzero, htwo] at hlen
  omega

end ProtoArray

end Lodestar.ForkChoice
