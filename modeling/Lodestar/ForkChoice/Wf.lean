import Lodestar.Base.BestChild
import Lodestar.ForkChoice.ProtoArray

/-!
# Well-formed proto arrays

The nodes of a proto array are a forest, with the best children and best
descendants as cached pointers. `maybeUpdateBestChildAndDescendant` is a
challenge of these pointers, and the loops that call it change nothing else
(`relink`).
-/

namespace Lodestar.ForkChoice

open Lodestar.Base

namespace ProtoArray

variable {this : ProtoArray} {i c p : Nat}

/-! ## The forest and its pointers -/

def parentOf (this : ProtoArray) (i : Nat) : Option Nat :=
  this.nodes[i]?.bind (·.parent)

/-- The cached pointers. -/
def links (this : ProtoArray) : Links where
  bestChild i := this.nodes[i]?.bind (·.bestChild)
  bestDescendant i := this.nodes[i]?.bind (·.bestDescendant)

/-- What `maybeUpdateBestChildAndDescendant` compares siblings by: the weight, then the root. -/
def key (this : ProtoArray) (i : Nat) : Int ×ₗ Nat :=
  match this.nodes[i]? with
  | some node => toLex (node.weight, node.blockRoot.toNat)
  | none => toLex (0, 0)

/-- Whether the node at `i` is viable for the head. -/
def viableAt (this : ProtoArray) (i : Nat) : Bool :=
  match this.nodes[i]? with
  | some node => this.nodeIsViableForHead node
  | none => false

/-- The indices name the nodes, and parents come before children. -/
structure Tree (this : ProtoArray) : Prop where
  indices_iff : ∀ {r : RootHex} {i : Nat},
    this.indices[r]? = some i ↔ ∃ node, this.nodes[i]? = some node ∧ node.blockRoot = r
  parent_lt : ∀ {c p : Nat}, this.parentOf c = some p → p < c

theorem lt_length_of_parentOf (h : this.parentOf c = some p) : c < this.nodes.length := by
  obtain ⟨node, hnode, -⟩ := Option.bind_eq_some_iff.mp h
  exact (List.getElem?_eq_some_iff.mp hnode).1

/-- The nodes as a forest. -/
def forest (this : ProtoArray) (h : this.Tree) : Forest where
  size := this.nodes.length
  parent := this.parentOf
  parent_lt := h.parent_lt
  lt_size := lt_length_of_parentOf

/-- What every method keeps. -/
structure Wf (this : ProtoArray) : Prop extends Tree this where
  links : Links.Inv (this.forest toTree) this.links

namespace Tree

theorem root_inj (h : this.Tree) {i j : Nat} {m n : IProtoNode} (hi : this.nodes[i]? = some m)
    (hj : this.nodes[j]? = some n) (hroot : m.blockRoot = n.blockRoot) : i = j := by
  have h₁ := h.indices_iff.mpr ⟨m, hi, rfl⟩
  rw [hroot, h.indices_iff.mpr ⟨n, hj, rfl⟩] at h₁
  exact (Option.some.inj h₁).symm

theorem lt_length_of_index (h : this.Tree) {r : RootHex} (hi : this.indices[r]? = some i) :
    i < this.nodes.length := by
  obtain ⟨node, hnode, -⟩ := h.indices_iff.mp hi
  exact (List.getElem?_eq_some_iff.mp hnode).1

theorem size_indices (h : this.Tree) : this.indices.size = this.nodes.length := by
  have hmem : ∀ {r : RootHex} {i : Nat}, (r, i) ∈ this.indices.toList ↔
      ∃ node, this.nodes[i]? = some node ∧ node.blockRoot = r := fun {r i} => by
    rw [Std.TreeMap.mem_toList_iff_getElem?_eq_some, h.indices_iff]
  have hnodup : (this.indices.toList.map (·.2)).Nodup := by
    refine List.Nodup.map_on (fun x hx y hy heq => ?_) ?_
    · obtain ⟨m, hm, hr⟩ := hmem.mp hx
      obtain ⟨n, hn, hr'⟩ := hmem.mp hy
      obtain rfl : m = n := by
        rw [heq, hn] at hm
        exact (Option.some.inj hm).symm
      exact Prod.ext (hr.symm.trans hr') heq
    · refine Std.TreeMap.distinct_keys_toList.imp fun {a b} hne heq => hne ?_
      rw [heq]
      exact Std.ReflCmp.compare_self
  have hperm : (this.indices.toList.map (·.2)).Perm (List.range this.nodes.length) := by
    refine (List.perm_ext_iff_of_nodup hnodup List.nodup_range).mpr fun i => ?_
    rw [List.mem_map, List.mem_range]
    constructor
    · rintro ⟨⟨r, i⟩, hx, rfl⟩
      obtain ⟨node, hnode, -⟩ := hmem.mp hx
      exact (List.getElem?_eq_some_iff.mp hnode).1
    · exact fun hi => ⟨(_, i), hmem.mpr ⟨_, List.getElem?_eq_getElem hi, rfl⟩, rfl⟩
  rw [← Std.TreeMap.length_toList, ← List.length_map (·.2), hperm.length_eq, List.length_range]

theorem key_injOn (h : this.Tree) : Set.InjOn this.key (Set.Iio (this.forest h).size) := by
  intro i hi j hj hkey
  rw [key, key, List.getElem?_eq_getElem hi, List.getElem?_eq_getElem hj] at hkey
  refine h.root_inj (List.getElem?_eq_getElem hi) (List.getElem?_eq_getElem hj) ?_
  exact BitVec.eq_of_toNat_eq (Prod.mk.inj hkey).2

end Tree

/-! ## New pointers -/

/-- The nodes with other pointers. -/
def relink (this : ProtoArray) (l : Links) : ProtoArray :=
  { this with
    nodes := this.nodes.mapIdx fun i node =>
      { node with bestChild := l.bestChild i, bestDescendant := l.bestDescendant i } }

section Relink

variable (l : Links)

theorem getElem?_relink (i : Nat) :
    (this.relink l).nodes[i]? = this.nodes[i]?.map fun node =>
      { node with bestChild := l.bestChild i, bestDescendant := l.bestDescendant i } :=
  List.getElem?_mapIdx

@[simp] theorem length_relink : (this.relink l).nodes.length = this.nodes.length :=
  List.length_mapIdx

@[simp] theorem parentOf_relink : (this.relink l).parentOf = this.parentOf := by
  funext i
  rw [parentOf, getElem?_relink, parentOf]
  cases this.nodes[i]? <;> rfl

@[simp] theorem key_relink : (this.relink l).key = this.key := by
  funext i
  rw [key, getElem?_relink, key]
  cases this.nodes[i]? <;> rfl

@[simp] theorem viableAt_relink : (this.relink l).viableAt = this.viableAt := by
  funext i
  rw [viableAt, getElem?_relink, viableAt]
  cases this.nodes[i]? <;> rfl

theorem relink_relink (l' : Links) : (this.relink l).relink l' = this.relink l' := by
  rw [relink, relink, relink, List.mapIdx_mapIdx]
  rfl

@[simp] theorem relink_links : this.relink this.links = this := by
  obtain ⟨-, -, -, -, -, nodes, -, -⟩ := this
  rw [relink]
  congr 1
  refine List.ext_getElem? fun i => ?_
  rw [List.getElem?_mapIdx]
  simp only [links]
  cases nodes[i]? <;> rfl

theorem Tree.relink (h : this.Tree) : (this.relink l).Tree where
  indices_iff {r i} := by
    rw [getElem?_relink]
    refine h.indices_iff.trans 
      ⟨fun ⟨node, hnode, hr⟩ => ⟨_, Option.map_eq_some_iff.mpr ⟨node, hnode, rfl⟩, hr⟩, ?_⟩
    rintro ⟨node, hnode, hr⟩
    obtain ⟨node', hnode', rfl⟩ := Option.map_eq_some_iff.mp hnode
    exact ⟨node', hnode', hr⟩
  parent_lt hp := h.parent_lt (by rwa [parentOf_relink] at hp)

theorem forest_relink (h : this.Tree) : (this.relink l).forest (h.relink l) = this.forest h :=
  Forest.ext' (length_relink l) (parentOf_relink l)

variable {l}

theorem links_relink {f : Forest} (hf : f.size ≤ this.nodes.length) (hl : Links.Inv f l) :
    (this.relink l).links = l := by
  have hout : ∀ i, this.nodes[i]? = none → l.bestChild i = none := by
    intro i hi
    rw [Option.eq_none_iff_forall_ne_some]
    intro c hc
    have hp := hl.parent hc
    have hlt := (f.parent_lt hp).trans (f.lt_size hp)
    exact absurd (List.getElem?_eq_none_iff.mp hi) (by omega)
  obtain ⟨bc, bd⟩ := l
  rw [links]
  congr 1 <;> funext i <;> rw [getElem?_relink]
  · cases hi : this.nodes[i]? with
    | none => exact (hout i hi).symm
    | some node => rfl
  · cases hi : this.nodes[i]? with
    | none => exact (hl.bestDescendant_eq_none (hout i hi)).symm
    | some node => rfl

theorem Wf.relink (h : this.Wf) (hl : Links.Inv (this.forest h.toTree) l) : (this.relink l).Wf where
  toTree := h.toTree.relink l
  links := by
    rw [forest_relink, links_relink (le_refl _) hl]
    exact hl

end Relink

/-! ## Challenges -/

theorem nodeLeadsToViableHead_eq (h : this.Wf) {node : IProtoNode}
    (hnode : this.nodes[i]? = some node) :
    this.nodeLeadsToViableHead node = .ok (this.links.leads this.viableAt i) := by
  have hviable : this.viableAt i = this.nodeIsViableForHead node := by rw [viableAt, hnode]
  have hbest : this.links.bestDescendant i = node.bestDescendant := by simp [ProtoArray.links, hnode]
  rw [nodeLeadsToViableHead, Links.leads, hviable, hbest]
  cases hd : node.bestDescendant with
  | none => simp
  | some d =>
    have hlt : d < this.nodes.length := h.links.bestDescendant_lt (hbest.trans hd)
    simp [List.getElem?_eq_getElem hlt, viableAt, Bool.or_comm]

theorem set_eq_relink {node : IProtoNode} (hnode : this.nodes[p]? = some node)
    (best : Option Nat × Option Nat) :
    { this with
      nodes := this.nodes.set p { node with bestChild := best.1, bestDescendant := best.2 } }
      = this.relink (this.links.set p best) := by
  rw [relink]
  congr 1
  refine List.ext_getElem? fun i => ?_
  rw [List.getElem?_mapIdx, List.getElem?_set]
  by_cases hi : p = i
  · subst hi
    have hlt := (List.getElem?_eq_some_iff.mp hnode).1
    rw [if_pos rfl, if_pos hlt, hnode, Option.map_some, Links.bestChild_set_self,
      Links.bestDescendant_set_self]
  · rw [if_neg hi, Links.bestChild_set_of_ne _ (Ne.symm hi),
      Links.bestDescendant_set_of_ne _ (Ne.symm hi)]
    cases hn : this.nodes[i]? with
    | none => rfl
    | some n => simp [ProtoArray.links, hn]

theorem ite_weight {α : Type} {w w' : Int} {r r' : RootHex} {P : Prop} [Decidable P]
    (hP : P ↔ w' < w ∨ w' = w ∧ r' ≤ r) (x y : α) :
    (if w = w' then (if r' ≤ r then x else y) else if w' ≤ w then x else y)
      = if P then x else y := by
  rcases lt_trichotomy w w' with hw | rfl | hw
  · rw [if_neg hw.ne, if_neg (not_le_of_gt hw), if_neg]
    rw [hP]
    omega
  · rw [if_pos rfl]
    exact if_congr (by rw [hP]; simp) rfl rfl
  · rw [if_neg hw.ne', if_pos hw.le, if_pos (hP.mpr (.inl hw))]

theorem maybeUpdateBestChildAndDescendant_eq (h : this.Wf) (hp : this.parentOf c = some p) :
    this.maybeUpdateBestChildAndDescendant p c
      = .ok (this.relink (this.links.set p (this.links.challenge this.key this.viableAt p c))) := by
  have hc : c < this.nodes.length := lt_length_of_parentOf hp
  have hlt : p < this.nodes.length := (h.parent_lt hp).trans hc
  obtain ⟨child, hchild⟩ : ∃ child, this.nodes[c]? = some child :=
    ⟨_, List.getElem?_eq_getElem hc⟩
  obtain ⟨parent, hparent⟩ : ∃ parent, this.nodes[p]? = some parent :=
    ⟨_, List.getElem?_eq_getElem hlt⟩
  rw [← set_eq_relink hparent]
  have hbc : this.links.bestChild p = parent.bestChild := by simp [ProtoArray.links, hparent]
  have hbd : this.links.bestDescendant p = parent.bestDescendant := by
    simp [ProtoArray.links, hparent]
  have hhead : this.links.head c = child.bestDescendant.getD c := by
    simp [Links.head, ProtoArray.links, hchild]
  have hleads := nodeLeadsToViableHead_eq h hchild
  rw [maybeUpdateBestChildAndDescendant, Links.challenge, hbc, hbd, hhead]
  simp only [hchild, hparent, hleads, bind, Except.bind, pure, Except.pure]
  cases hb : parent.bestChild with
  | none => rfl
  | some b =>
    by_cases hbc' : b = c
    · simp only [hbc', if_true]
    · have hpb : this.parentOf b = some p := h.links.parent (hbc.trans hb)
      obtain ⟨best, hbest⟩ : ∃ best, this.nodes[b]? = some best :=
        ⟨_, List.getElem?_eq_getElem (lt_length_of_parentOf hpb)⟩
      have hkey : this.key b ≤ this.key c ↔ best.weight < child.weight ∨
          best.weight = child.weight ∧ best.blockRoot ≤ child.blockRoot := by
        rw [key, key, hbest, hchild, BitVec.le_def]
        exact Prod.Lex.toLex_le_toLex
      simp only [if_neg hbc', hbest, nodeLeadsToViableHead_eq h hbest]
      cases this.links.leads this.viableAt c <;> cases this.links.leads this.viableAt b <;>
        simp only [Bool.not_true, Bool.not_false, Bool.and_true, Bool.and_false, if_true,
          Bool.false_eq_true, if_false]
      all_goals
        rw [← ite_weight hkey]
        split <;> rfl

theorem updateBestChildren_eq (h : this.Wf) {n : Nat} (hn : n ≤ this.nodes.length) :
    updateBestChildren n this
      = .ok (this.relink
          (Links.pass (this.forest h.toTree) this.key this.viableAt n this.links)) := by
  induction n generalizing this with
  | zero => rw [updateBestChildren, Links.pass, relink_links]
  | succ n ih =>
    obtain ⟨node, hnode⟩ : ∃ node, this.nodes[n]? = some node :=
      ⟨_, List.getElem?_eq_getElem hn⟩
    have hparent : (this.forest h.toTree).parent n = node.parent := by
      simp [forest, parentOf, hnode]
    rw [updateBestChildren, hnode, Links.pass, Links.visit, hparent]
    cases hp : node.parent with
    | none =>
      simp only [hp]
      exact ih h (by omega)
    | some p =>
      have hpn : this.parentOf n = some p := hparent.trans hp
      have hinv := h.links.set_challenge this.key this.viableAt hpn
      have hwf := h.relink hinv
      simp only [hp, maybeUpdateBestChildAndDescendant_eq h hpn, bind, Except.bind]
      rw [ih hwf (by rw [length_relink]; omega)]
      simp only [relink_relink, forest_relink _ h.toTree, key_relink, viableAt_relink,
        links_relink (le_refl _) hinv]

theorem Wf.coherent_of_root (h : this.Wf) (hp : this.parentOf i = none)
    (hcoh : this.links.CoherentAt {i}ᶜ) : this.links.Coherent := by
  refine hcoh.univ fun {p c} hc heq => ?_
  have hpar : this.parentOf c = some p := h.links.parent hc
  rw [Set.mem_singleton_iff.mp heq, hp] at hpar
  cases hpar

/-- The loop of `onBlock` is some challenges. It ends at a root, so where only the pointers to the
first node were out of date, none is at the end. -/
theorem updateAncestors_eq (h : this.Wf) (fuel nodeIndex : Nat) :
    ∃ l, Links.Inv (this.forest h.toTree) l ∧
      (nodeIndex ≤ fuel → this.links.CoherentAt {nodeIndex}ᶜ → l.Coherent) ∧
      updateAncestors fuel this (this.parentOf nodeIndex) nodeIndex = .ok (this.relink l) := by
  induction fuel generalizing this nodeIndex with
  | zero =>
    refine ⟨this.links, h.links, fun hle => h.coherent_of_root ?_, by
      rw [updateAncestors, relink_links]⟩
    rw [Option.eq_none_iff_forall_ne_some]
    intro p hp
    have hlt := h.parent_lt hp
    omega
  | succ fuel ih =>
    cases hp : this.parentOf nodeIndex with
    | none =>
      exact ⟨this.links, h.links, fun _ => h.coherent_of_root hp, by simp [updateAncestors]⟩
    | some p =>
      have hinv := h.links.set_challenge this.key this.viableAt hp
      have hwf := h.relink hinv
      have hlt := h.parent_lt hp
      obtain ⟨l, hl, hcoh, hloop⟩ := ih hwf p
      refine ⟨l, by rwa [forest_relink] at hl, fun hle hc => hcoh (by omega) ?_, ?_⟩
      · rw [links_relink (le_refl _) hinv]
        exact hc.set_challenge this.key this.viableAt h.links hp
      · rw [parentOf] at hloop
        simp only [updateAncestors, maybeUpdateBestChildAndDescendant_eq h hp, bind, Except.bind,
          hloop, relink_relink]

end ProtoArray

end Lodestar.ForkChoice
