import Lodestar.Base.Except
import Lodestar.ForkChoice.Steps

/-!
# The head and the GHOST walk

After `applyScoreChanges` the best descendant of the justified block is the end
of the GHOST walk from it, unless the pass has left the end a best child that is
not viable (`StaleEnd`).
-/

namespace Lodestar.ForkChoice

open Lodestar.Base

namespace ProtoArray

variable {this this' : ProtoArray} {j e : Nat}

theorem findHead_eq (h : this.Wf) {justifiedRoot : RootHex}
    (hj : this.indices[justifiedRoot]? = some j) :
    ∃ node, this.nodes[this.links.head j]? = some node ∧
      (this.findHead justifiedRoot = .ok node.blockRoot ∨
        (∃ error, this.findHead justifiedRoot = .error error) ∧ this.links.head j ≠ j ∧
          this.viableAt (this.links.head j) = false) := by
  obtain ⟨justified, hjustified, -⟩ := h.indices_iff.mp hj
  have hhead : this.links.head j = justified.bestDescendant.getD j := by
    simp [Links.head, ProtoArray.links, hjustified]
  have hlt : this.links.head j < this.nodes.length := by
    rw [Links.head]
    cases hd : this.links.bestDescendant j with
    | none => exact h.lt_length_of_index hj
    | some d => exact h.links.bestDescendant_lt hd
  obtain ⟨node, hnode⟩ : ∃ node, this.nodes[this.links.head j]? = some node :=
    ⟨_, List.getElem?_eq_getElem hlt⟩
  have hviable : this.viableAt (this.links.head j) = this.nodeIsViableForHead node := by
    rw [viableAt, hnode]
  refine ⟨node, hnode, ?_⟩
  rw [hviable, findHead]
  rw [hhead] at hnode ⊢
  simp only [hj, hjustified, hnode]
  by_cases hne : justified.bestDescendant.getD j = j
  · refine .inl ?_
    simp [hne]
    rfl
  · cases hv : this.nodeIsViableForHead node
    · exact .inr ⟨⟨_, by simp [hne]; rfl⟩, hne, rfl⟩
    · exact .inl (by simp; rfl)

/-- Before the call, the cached best child of `e` has a sibling that comes after it and is not
behind it under the new weights. -/
def StaleEnd (this : ProtoArray) (h : this.Tree) (changes : ScoreChanges) (e : Nat) : Prop :=
  Stale (this.forest h) (this.scored h changes).key this.links e

theorem Reachable.step (h : this.Reachable) (hstep : Step this this') : this'.Reachable := by
  obtain ⟨a, b, c, d, r, hrun⟩ := h
  exact ⟨a, b, c, d, r, hrun.tail hstep⟩

theorem length_deltas (h : this.Wf) {changes : ScoreChanges}
    (hcall : this.applyScoreChanges changes = .ok this') :
    changes.deltas.length = this.nodes.length := by
  by_contra hne
  rw [applyScoreChanges, if_pos (by rwa [h.size_indices])] at hcall
  cases hcall

theorem applyScoreChanges_parts (h : this.Wf) {changes : ScoreChanges}
    (hcall : this.applyScoreChanges changes = .ok this') (h' : this'.Wf) :
    this'.forest h'.toTree = this.forest h.toTree ∧
      this'.key = (this.scored h.toTree changes).key ∧
      this'.links = Links.pass (this.forest h.toTree) this'.key this'.viableAt
        (this.forest h.toTree).size this.links := by
  have hlen := length_deltas h hcall
  obtain rfl := Except.ok.inj (hcall.symm.trans (applyScoreChanges_eq h changes hlen))
  have hparent : (this.scored h.toTree changes).parentOf = this.parentOf := parentOf_reweigh _
  refine ⟨Forest.ext' ?_ ?_, key_relink _, ?_⟩
  · exact (length_relink _).trans (length_scored _ _)
  · exact (parentOf_relink _).trans hparent
  · refine (links_relink (f := this.forest h.toTree) (length_scored _ _).ge
      (h.links.pass _)).trans ?_
    exact congrArg₂ (fun key viable => Links.pass (this.forest h.toTree) key viable
      this.nodes.length this.links) (key_relink _).symm (viableAt_relink _).symm

/-- After `applyScoreChanges`, `findHead` returns the end of the GHOST walk from the justified
block, and does not throw, if and only if that end was not stale. -/
theorem findHead_eq_ghost_iff (hr : this.Reachable) {changes : ScoreChanges}
    (hcall : this.applyScoreChanges changes = .ok this') {justifiedRoot : RootHex}
    (hj : this'.indices[justifiedRoot]? = some j) :
    ∃ (e : Nat) (node : IProtoNode),
      GhostEnd (this'.forest (hr.step (.applyScoreChanges changes hcall)).wf.toTree) this'.key
        this'.viableAt j e ∧
      this'.nodes[e]? = some node ∧
      (this'.findHead justifiedRoot = .ok node.blockRoot ↔
        ¬ this.StaleEnd hr.wf.toTree changes e) := by
  have h' := (hr.step (.applyScoreChanges changes hcall)).wf
  obtain ⟨hforest, hkey, hlinks⟩ := applyScoreChanges_parts hr.wf hcall h'
  obtain ⟨e, hw⟩ := GhostEnd.exists (this'.forest h'.toTree) this'.key this'.viableAt j
  have hlt : e < this'.nodes.length := hw.lt_size (h'.lt_length_of_index hj)
  have hhead : this'.links.head j = e ↔ ¬ this.StaleEnd hr.wf.toTree changes e := by
    rw [hlinks, StaleEnd, ← hkey]
    rw [hforest] at hw
    exact Links.head_pass_eq_iff hr.wf.links (hforest ▸ h'.toTree.key_injOn) hw
  obtain ⟨node, hnode, hfind⟩ := findHead_eq h' hj
  refine ⟨e, _, hw, List.getElem?_eq_getElem hlt, ?_⟩
  rw [← hhead]
  constructor
  · intro hok
    rcases hfind with hfind | ⟨⟨error, hfind⟩, -⟩ <;> rw [hok] at hfind
    · exact h'.root_inj hnode (List.getElem?_eq_getElem hlt) (Except.ok.inj hfind).symm
    · cases hfind
  · rintro rfl
    rcases hfind with hfind | ⟨-, hne, hviable⟩
    · rw [hfind]
      rw [List.getElem?_eq_getElem hlt] at hnode
      rw [Option.some.inj hnode]
    · rw [hw.isViable_of_ne hne] at hviable
      cases hviable

/-! ## A stale end -/

/-- A block of epoch 1 whose state has justified the anchor. -/
def staleBlock (slot : Nat) (blockRoot parentRoot : RootHex) : IProtoBlock where
  slot
  blockRoot
  parentRoot
  stateRoot := 0
  targetRoot := blockRoot
  justifiedEpoch := 1
  justifiedRoot := 0xaa
  finalizedEpoch := 0
  finalizedRoot := 0xaa
  execution := .preMerge

/-- The anchor `0xaa` with the children `0xcc` and `0xbb`, of which `0xcc` is the best child. -/
def staleArray : ProtoArray :=
  okOr (empty 0 1 0xaa 0 0xaa)
    ([staleBlock 8 0xaa 0x99, staleBlock 9 0xcc 0xaa, staleBlock 10 0xbb 0xaa].foldlM onBlock
      (empty 0 1 0xaa 0 0xaa))

theorem run_of_foldlM {blocks : List IProtoBlock} (h : blocks.foldlM onBlock this = .ok this') :
    Relation.ReflTransGen Step this this' := by
  induction blocks generalizing this with
  | nil =>
    obtain rfl := Except.ok.inj h
    exact .refl
  | cons block blocks ih =>
    rw [List.foldlM_cons] at h
    cases hcall : this.onBlock block with
    | error e =>
      rw [hcall] at h
      cases h
    | ok that =>
      rw [hcall] at h
      exact .head (.onBlock block hcall) (ih h)

theorem staleArray_reachable : staleArray.Reachable :=
  ⟨0, 1, 0xaa, 0, 0xaa, run_of_foldlM (eq_ok_okOr _ (by decide +kernel))⟩

/-- A vote of one increment for `0xbb`, and a justified checkpoint that neither child knows of. -/
def staleChanges : ScoreChanges where
  deltas := [0, 0, 1]
  proposerBoost := none
  justifiedEpoch := 2
  justifiedRoot := 0xaa
  finalizedEpoch := 0
  finalizedRoot := 0xaa

/-- The array after the change. -/
def staleScored : ProtoArray :=
  okOr staleArray (staleArray.applyScoreChanges staleChanges)

theorem staleArray_applyScoreChanges :
    staleArray.applyScoreChanges staleChanges = .ok staleScored :=
  eq_ok_okOr _ (by decide +kernel)

theorem viableAt_eq_false (h : ∀ node ∈ this.nodes, this.nodeIsViableForHead node = false)
    (i : Nat) : this.viableAt i = false := by
  rw [viableAt]
  cases hn : this.nodes[i]? with
  | none => rfl
  | some node => exact h node (List.mem_of_getElem? hn)

/-- No node is viable, so the walk from the anchor stays there; `findHead` throws. -/
theorem findHead_throws :
    ∃ (this this' : ProtoArray) (changes : ScoreChanges) (hr : this.Reachable)
      (hcall : this.applyScoreChanges changes = .ok this'),
      this'.indices[(0xaa : RootHex)]? = some 0 ∧
      GhostEnd (this'.forest (hr.step (.applyScoreChanges changes hcall)).wf.toTree) this'.key
        this'.viableAt 0 0 ∧
      this'.findHead 0xaa = .error (.INVALID_BEST_NODE 0xaa 2 0 0xaa 1 0) := by
  refine ⟨staleArray, staleScored, staleChanges, staleArray_reachable,
    staleArray_applyScoreChanges, by decide +kernel, .stop (fun c _ ⟨d, _, hd⟩ => ?_),
    by decide +kernel⟩
  rw [viableAt_eq_false (by decide +kernel)] at hd
  cases hd

/-- The anchor is a stale end of that change, as `findHead` does not return it. -/
theorem staleEnd_staleArray :
    staleArray.StaleEnd staleArray_reachable.wf.toTree staleChanges 0 := by
  have hanchor : staleScored.indices[(0xaa : RootHex)]? = some 0 := by decide +kernel
  obtain ⟨e, node, hw, -, hiff⟩ :=
    findHead_eq_ghost_iff staleArray_reachable staleArray_applyScoreChanges hanchor
  have hthrows : staleScored.findHead 0xaa = .error (.INVALID_BEST_NODE 0xaa 2 0 0xaa 1 0) := by
    decide +kernel
  have hstays : e = 0 := by
    by_contra hne
    have hviable := hw.isViable_of_ne hne
    rw [viableAt_eq_false (by decide +kernel)] at hviable
    cases hviable
  subst hstays
  by_contra hstale
  rw [hiff.mpr hstale] at hthrows
  cases hthrows

end ProtoArray

end Lodestar.ForkChoice
