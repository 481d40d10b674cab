import Lodestar.Eth1.Eth1Vote
import Mathlib.Data.List.MinMax
import Mathlib.Data.Prod.Lex

/-!
# The vote of the spec

`get_eth1_vote` of the spec takes the most voted candidate, and among several the
one that was voted for first. `pickEth1Vote` takes the one whose first vote came
last.
-/

namespace Lodestar.Eth1

open Lodestar.Base Lodestar.StateTransition

variable {state : Eth1State} {votesToConsider votes : List Eth1Data} {counts : VoteCounts}
  {vote : Eth1Data} {keys : List (List Char)}

/-- `get_eth1_vote` on the candidates. `tiebreak` ranks the places of the first votes. -/
def getEth1Vote {β : Type} [LinearOrder β] (tiebreak : Nat → β) (state : Eth1State)
    (votesToConsider : List Eth1Data) : Eth1Data :=
  let validVotes := state.eth1DataVotes.filter (· ∈ votesToConsider)
  let defaultVote := votesToConsider.getLast?.getD state.eth1Data
  (validVotes.argmax fun vote =>
    toLex (validVotes.count vote, tiebreak (validVotes.idxOf vote))).getD defaultVote

/-! ## Keys -/

theorem getEth1DataKey_injective : Function.Injective getEth1DataKey := by
  intro a b h
  have hroot : a.depositRoot = b.depositRoot := by
    unfold getEth1DataKey at h
    exact toHexString_injective ⟨64, rfl⟩ (List.append_inj' h (by simp)).2
  have hcount := depositCount_eq_of_getEth1DataKey_eq h
  have hhash := blockHash_eq_of_getEth1DataKey_eq h
  cases a
  cases b
  simp_all

theorem getEth1DataKey_mem_map :
    getEth1DataKey vote ∈ votesToConsider.map getEth1DataKey ↔ vote ∈ votesToConsider :=
  List.mem_map_of_injective getEth1DataKey_injective

/-! ## Counts -/

/-- The counts of `votes`, whose keys are ordered by first votes. -/
structure VoteCounts.Counted (counts : VoteCounts) (votes : List Eth1Data) : Prop where
  keys : counts.eth1DataVoteCountByRoot.keys = counts.eth1DataVotesOrder
  mem_order : ∀ root ∈ counts.eth1DataVotesOrder, ∃ vote ∈ votes, getEth1DataKey vote = root
  count : ∀ vote, counts.eth1DataVoteCountByRoot.get (getEth1DataKey vote) =
    if vote ∈ votes then some (votes.count vote) else none
  data : ∀ vote ∈ votes,
    counts.eth1DataHashToEth1Data.get (getEth1DataKey vote) = some vote
  order : counts.eth1DataVotesOrder.Pairwise fun root root' => ∀ vote vote',
    getEth1DataKey vote = root → getEth1DataKey vote' = root' →
      votes.idxOf vote < votes.idxOf vote'

theorem VoteCounts.counted_nil : ({} : VoteCounts).Counted [] where
  keys := rfl
  mem_order := fun _ h => absurd h List.not_mem_nil
  count := fun _ => rfl
  data := fun _ h => absurd h List.not_mem_nil
  order := .nil

theorem VoteCounts.Counted.mem_order_iff (h : counts.Counted votes) :
    getEth1DataKey vote ∈ counts.eth1DataVotesOrder ↔ vote ∈ votes := by
  constructor
  · intro hmem
    obtain ⟨vote', hvote', heq⟩ := h.mem_order _ hmem
    exact getEth1DataKey_injective heq ▸ hvote'
  · intro hmem
    by_contra hnot
    rw [← h.keys] at hnot
    have hget := h.count vote
    rw [OrderedMap.get_eq_none_iff.mpr hnot, if_pos hmem] at hget
    cases hget

theorem VoteCounts.Counted.add (h : counts.Counted votes)
    (hkeys : getEth1DataKey vote ∈ keys) :
    (counts.add keys vote).Counted (votes ++ [vote]) := by
  have hcount : ∀ other, (votes ++ [vote]).count other =
      votes.count other + if vote = other then 1 else 0 := by
    intro other
    rw [List.count_append, List.count_singleton]
    simp
  have horder : counts.eth1DataVotesOrder.Pairwise fun root root' => ∀ other other',
      getEth1DataKey other = root → getEth1DataKey other' = root' →
        (votes ++ [vote]).idxOf other < (votes ++ [vote]).idxOf other' := by
    refine h.order.imp_of_mem fun hroot hroot' hlt other other' heq heq' => ?_
    subst heq heq'
    rw [List.idxOf_append_of_mem (h.mem_order_iff.mp hroot),
      List.idxOf_append_of_mem (h.mem_order_iff.mp hroot')]
    exact hlt other other' rfl rfl
  unfold VoteCounts.add
  dsimp only
  rw [if_pos hkeys, h.count vote]
  by_cases hmem : vote ∈ votes
  · -- the vote is known, and its count grows
    have hkey : getEth1DataKey vote ∈ counts.eth1DataVoteCountByRoot.keys := by
      rw [h.keys]
      exact h.mem_order_iff.mpr hmem
    have hmem_iff : ∀ other, other ∈ votes ++ [vote] ↔ other ∈ votes := by
      intro other
      rw [List.mem_append, List.mem_singleton]
      exact ⟨fun hor => hor.elim id fun heq => heq ▸ hmem, .inl⟩
    rw [if_pos hmem]
    refine ⟨?_, ?_, ?_, ?_, horder⟩
    · show (OrderedMap.set _ _ _).keys = _
      rw [OrderedMap.keys_set, if_pos hkey, h.keys]
    · intro root hroot
      obtain ⟨other, hother, heq⟩ := h.mem_order root hroot
      exact ⟨other, List.mem_append_left _ hother, heq⟩
    · intro other
      simp only [OrderedMap.get_set, hmem_iff, hcount, h.count]
      by_cases heq : vote = other
      · subst heq
        rw [if_pos rfl, if_pos hmem, if_pos rfl, Nat.add_comm]
      · rw [if_neg fun hk => heq (getEth1DataKey_injective hk).symm, if_neg heq, Nat.add_zero]
    · intro other hother
      exact h.data other ((hmem_iff other).mp hother)
  · -- the first vote for it
    have hkey : getEth1DataKey vote ∉ counts.eth1DataVotesOrder :=
      fun hk => hmem (h.mem_order_iff.mp hk)
    rw [if_neg hmem]
    refine ⟨?_, ?_, ?_, ?_, ?_⟩
    · show (OrderedMap.set _ _ _).keys = _ ++ [_]
      rw [OrderedMap.keys_set, h.keys, if_neg hkey]
    · intro root hroot
      rcases List.mem_append.mp hroot with hroot | hroot
      · obtain ⟨other, hother, heq⟩ := h.mem_order root hroot
        exact ⟨other, List.mem_append_left _ hother, heq⟩
      · exact ⟨vote, by simp, (List.mem_singleton.mp hroot).symm⟩
    · intro other
      simp only [OrderedMap.get_set, hcount, h.count, List.mem_append, List.mem_singleton]
      by_cases heq : vote = other
      · subst heq
        rw [if_pos rfl, if_pos (.inr rfl), if_pos rfl, List.count_eq_zero_of_not_mem hmem]
      · rw [if_neg fun hk => heq (getEth1DataKey_injective hk).symm, if_neg heq, Nat.add_zero]
        simp [Ne.symm heq]
    · intro other hother
      show (OrderedMap.set _ _ _).get _ = _
      rw [OrderedMap.get_set]
      split_ifs with hk
      · rw [getEth1DataKey_injective hk]
      · refine h.data other ?_
        rcases List.mem_append.mp hother with hother | hother
        · exact hother
        · exact absurd (congrArg getEth1DataKey (List.mem_singleton.mp hother)) hk
    · show (counts.eth1DataVotesOrder ++ [getEth1DataKey vote]).Pairwise _
      rw [List.pairwise_append]
      refine ⟨horder, List.pairwise_singleton _ _, ?_⟩
      intro root hroot root' hroot' other other' heq heq'
      subst heq
      obtain rfl := getEth1DataKey_injective (heq'.trans (List.mem_singleton.mp hroot'))
      have hother := h.mem_order_iff.mp hroot
      rw [List.idxOf_append_of_mem hother, List.idxOf_append_of_notMem hmem]
      have := List.idxOf_lt_length_iff.mpr hother
      omega

theorem VoteCounts.Counted.foldl {more : List Eth1Data} (h : counts.Counted votes)
    (hkeys : ∀ vote ∈ more, getEth1DataKey vote ∈ keys) :
    (more.foldl (VoteCounts.add keys) counts).Counted (votes ++ more) := by
  induction more generalizing counts votes with
  | nil => rwa [List.append_nil]
  | cons vote more ih =>
    have hnext := ih (h.add (hkeys vote List.mem_cons_self))
      fun other hother => hkeys other (List.mem_cons_of_mem _ hother)
    rwa [List.append_assoc] at hnext

theorem foldl_add_eq (votes : List Eth1Data) :
    votes.foldl (VoteCounts.add (votesToConsider.map getEth1DataKey)) counts =
      (votes.filter (· ∈ votesToConsider)).foldl
        (VoteCounts.add (votesToConsider.map getEth1DataKey)) counts := by
  induction votes generalizing counts with
  | nil => rfl
  | cons vote votes ih =>
    rw [List.foldl_cons, ih, List.filter_cons]
    by_cases hmem : vote ∈ votesToConsider
    · rw [if_pos (by simpa using hmem), List.foldl_cons]
    · rw [if_neg (by simpa using hmem), VoteCounts.add,
        if_neg fun hk => hmem (getEth1DataKey_mem_map.mp hk)]

/-! ## Winners -/

/-- The greatest value of the entries, with the keys that have it. -/
structure IsKeysMax {α : Type} (l : List (α × Nat)) (max : List α × WithBot Nat) : Prop where
  le_iff : ∀ bound, max.2 ≤ bound ↔ ∀ e ∈ l, (e.2 : WithBot Nat) ≤ bound
  mem_iff : ∀ k, k ∈ max.1 ↔ ∃ v : Nat, (k, v) ∈ l ∧ (v : WithBot Nat) = max.2

theorem IsKeysMax.step {α : Type} {l : List (α × Nat)} {max : List α × WithBot Nat}
    (h : IsKeysMax l max) (key : α) (value : Nat) :
    IsKeysMax (l ++ [(key, value)])
      (if (value : WithBot Nat) > max.2 then ([key], (value : WithBot Nat))
        else if (value : WithBot Nat) = max.2 then (max.1 ++ [key], max.2) else max) := by
  have hle : ∀ bound, (∀ e ∈ l ++ [(key, value)], (e.2 : WithBot Nat) ≤ bound) ↔
      max.2 ≤ bound ∧ (value : WithBot Nat) ≤ bound := by
    intro bound
    rw [h.le_iff, List.forall_mem_append, List.forall_mem_singleton]
  split_ifs with hgt heq
  · refine ⟨fun bound => ?_, fun k => ?_⟩
    · rw [hle]
      exact ⟨fun hb => ⟨hgt.le.trans hb, hb⟩, fun hb => hb.2⟩
    · constructor
      · intro hk
        obtain rfl := List.mem_singleton.mp hk
        exact ⟨value, by simp, rfl⟩
      · rintro ⟨v, hv, hval⟩
        rcases List.mem_append.mp hv with hv | hv
        · have hbound := (h.le_iff max.2).mp le_rfl _ hv
          exact absurd (hval.symm.le.trans hbound) (not_le.mpr hgt)
        · exact List.mem_singleton.mpr (Prod.mk.inj (List.mem_singleton.mp hv)).1
  · refine ⟨fun bound => ?_, fun k => ?_⟩
    · rw [hle]
      exact ⟨fun hb => ⟨hb, heq.le.trans hb⟩, fun hb => hb.1⟩
    · simp only [List.mem_append, List.mem_singleton, h.mem_iff, Prod.mk.injEq]
      constructor
      · rintro (⟨v, hv, hval⟩ | rfl)
        · exact ⟨v, .inl hv, hval⟩
        · exact ⟨value, .inr ⟨rfl, rfl⟩, heq⟩
      · rintro ⟨v, hv | ⟨rfl, -⟩, hval⟩
        · exact .inl ⟨v, hv, hval⟩
        · exact .inr rfl
  · refine ⟨fun bound => ?_, fun k => ?_⟩
    · rw [hle]
      exact ⟨fun hb => ⟨hb, (not_lt.mp hgt).trans hb⟩, fun hb => hb.1⟩
    · simp only [List.mem_append, List.mem_singleton, h.mem_iff, Prod.mk.injEq]
      constructor
      · rintro ⟨v, hv, hval⟩
        exact ⟨v, .inl hv, hval⟩
      · rintro ⟨v, hv | ⟨-, rfl⟩, hval⟩
        · exact ⟨v, hv, hval⟩
        · exact absurd hval heq

theorem isKeysMax_foldl {α : Type} {f : List α × WithBot Nat → α × Nat → List α × WithBot Nat}
    (hf : ∀ max key value, f max (key, value) =
      if (value : WithBot Nat) > max.2 then ([key], (value : WithBot Nat))
      else if (value : WithBot Nat) = max.2 then (max.1 ++ [key], max.2) else max)
    (l : List (α × Nat)) : IsKeysMax l (l.foldl f ([], ⊥)) := by
  induction l using List.reverseRecOn with
  | nil => exact ⟨fun bound => by simp, fun k => by simp⟩
  | append_singleton l e ih =>
    rw [List.foldl_append, List.foldl_cons, List.foldl_nil, ← Prod.mk.eta (p := e), hf]
    exact ih.step e.1 e.2

theorem mem_getKeysWithMaxValue {α : Type} [DecidableEq α] {map : OrderedMap α Nat} {k : α} :
    k ∈ getKeysWithMaxValue map ↔
      ∃ v, map.get k = some v ∧ ∀ k' v', map.get k' = some v' → v' ≤ v := by
  obtain ⟨max, hmax, hkeys⟩ : ∃ max, IsKeysMax map.entries max ∧ getKeysWithMaxValue map = max.1 :=
    ⟨_, isKeysMax_foldl (fun _ _ _ => rfl) map.entries, rfl⟩
  rw [hkeys, hmax.mem_iff]
  simp only [OrderedMap.get_eq_some_iff]
  constructor
  · rintro ⟨v, hv, hval⟩
    refine ⟨v, hv, fun k' v' hv' => ?_⟩
    exact WithBot.coe_le_coe.mp ((hmax.le_iff _).mp hval.symm.le _ hv')
  · rintro ⟨v, hv, hall⟩
    refine ⟨v, hv, le_antisymm ((hmax.le_iff _).mp le_rfl _ hv) ((hmax.le_iff _).mpr ?_)⟩
    exact fun e he => WithBot.coe_le_coe.mpr (hall e.1 e.2 he)

theorem foldl_max_eq {l : List Nat} {n : Nat} (hmem : n ∈ l) (hle : ∀ m ∈ l, m ≤ n) :
    l.foldl max 0 = n := by
  cases l with
  | nil => exact absurd hmem List.not_mem_nil
  | cons m l =>
    have hmax : (m :: l).max? = some ((m :: l).foldl max 0) := by
      rw [List.max?_cons', List.foldl_cons, Nat.zero_max]
    exact Option.some.inj (hmax.symm.trans (List.max?_eq_some_iff.mpr ⟨hmem, hle⟩))

/-! ## The vote -/

theorem VoteCounts.Counted.exists_vote (h : counts.Counted votes) {root : List Char} {n : Nat}
    (hget : counts.eth1DataVoteCountByRoot.get root = some n) :
    ∃ vote ∈ votes, getEth1DataKey vote = root ∧ n = votes.count vote := by
  have hroot : root ∈ counts.eth1DataVotesOrder := by
    by_contra hnot
    rw [← h.keys] at hnot
    rw [OrderedMap.get_eq_none_iff.mpr hnot] at hget
    cases hget
  obtain ⟨vote, hvote, rfl⟩ := h.mem_order root hroot
  rw [h.count, if_pos hvote] at hget
  exact ⟨vote, hvote, rfl, (Option.some.inj hget).symm⟩

theorem VoteCounts.Counted.mem_keysMax (h : counts.Counted votes) {root : List Char} :
    root ∈ getKeysWithMaxValue counts.eth1DataVoteCountByRoot ↔
      ∃ vote ∈ votes, getEth1DataKey vote = root ∧
        ∀ other ∈ votes, votes.count other ≤ votes.count vote := by
  rw [mem_getKeysWithMaxValue]
  constructor
  · rintro ⟨n, hget, hall⟩
    obtain ⟨vote, hvote, hkey, rfl⟩ := h.exists_vote hget
    refine ⟨vote, hvote, hkey, fun other hother => hall (getEth1DataKey other) _ ?_⟩
    rw [h.count, if_pos hother]
  · rintro ⟨vote, hvote, rfl, hall⟩
    refine ⟨votes.count vote, by rw [h.count, if_pos hvote], fun root n hget => ?_⟩
    obtain ⟨other, hother, -, rfl⟩ := h.exists_vote hget
    exact hall other hother

theorem VoteCounts.Counted.idxOf_le (h : counts.Counted votes) {other : Eth1Data}
    (hother : other ∈ votes) (hle : votes.idxOf other ≤ votes.idxOf vote) :
    counts.eth1DataVotesOrder.idxOf (getEth1DataKey other) ≤
      counts.eth1DataVotesOrder.idxOf (getEth1DataKey vote) := by
  by_contra hlt
  rw [not_le] at hlt
  have hlen := List.idxOf_lt_length_iff.mpr (h.mem_order_iff.mpr hother)
  have hlater := List.pairwise_iff_getElem.mp h.order _ _ (hlt.trans hlen) hlen hlt vote other
    (List.getElem_idxOf _).symm (List.getElem_idxOf _).symm
  omega

/-- The most voted data whose first vote is the latest. -/
def IsLatestMostVoted (votes : List Eth1Data) (vote : Eth1Data) : Prop :=
  vote ∈ votes ∧ ∀ other ∈ votes, toLex (votes.count other, votes.idxOf other) ≤
    toLex (votes.count vote, votes.idxOf vote)

theorem IsLatestMostVoted.count_le (h : IsLatestMostVoted votes vote) {other : Eth1Data}
    (hother : other ∈ votes) : votes.count other ≤ votes.count vote := by
  rcases Prod.Lex.toLex_le_toLex.mp (h.2 other hother) with hlt | ⟨heq, -⟩
  · exact hlt.le
  · exact heq.le

theorem VoteCounts.Counted.latest_eq (h : counts.Counted votes)
    (hlatest : IsLatestMostVoted votes vote) :
    getEth1DataKey vote ∈ getKeysWithMaxValue counts.eth1DataVoteCountByRoot ∧
      ((getKeysWithMaxValue counts.eth1DataVoteCountByRoot).map
        (counts.eth1DataVotesOrder.idxOf ·)).foldl max 0 =
      counts.eth1DataVotesOrder.idxOf (getEth1DataKey vote) := by
  have hmem : getEth1DataKey vote ∈ getKeysWithMaxValue counts.eth1DataVoteCountByRoot :=
    h.mem_keysMax.mpr ⟨vote, hlatest.1, rfl, fun other => hlatest.count_le⟩
  refine ⟨hmem, foldl_max_eq (List.mem_map_of_mem hmem) fun n hn => ?_⟩
  obtain ⟨root, hroot, rfl⟩ := List.mem_map.mp hn
  obtain ⟨other, hother, rfl, hall⟩ := h.mem_keysMax.mp hroot
  apply h.idxOf_le hother
  rcases Prod.Lex.toLex_le_toLex.mp (hlatest.2 other hother) with hlt | ⟨-, hle⟩
  · exact absurd (hall vote hlatest.1) (not_le.mpr hlt)
  · exact hle

/-- The spec's vote, had it taken the latest one where several have as many votes. -/
theorem pickEth1Vote_eq_getEth1Vote (state : Eth1State) (votesToConsider : List Eth1Data) :
    pickEth1Vote state votesToConsider = getEth1Vote id state votesToConsider := by
  unfold pickEth1Vote getEth1Vote
  dsimp only
  rw [foldl_add_eq]
  set votes := state.eth1DataVotes.filter (· ∈ votesToConsider) with hvotes
  have hcounted : ((votes.foldl (VoteCounts.add (votesToConsider.map getEth1DataKey)) {})).Counted
      votes := by
    refine VoteCounts.counted_nil.foldl fun vote hvote => ?_
    rw [hvotes, List.mem_filter, decide_eq_true_eq] at hvote
    exact getEth1DataKey_mem_map.mpr hvote.2
  set counts := votes.foldl (VoteCounts.add (votesToConsider.map getEth1DataKey)) {}
  cases hargmax : votes.argmax fun vote => toLex (votes.count vote, id (votes.idxOf vote)) with
  | none =>
    -- nobody has voted for a candidate
    have hnil : getKeysWithMaxValue counts.eth1DataVoteCountByRoot = [] := by
      refine List.eq_nil_iff_forall_not_mem.mpr fun root hroot => ?_
      obtain ⟨vote, hvote, -⟩ := hcounted.mem_keysMax.mp hroot
      rw [List.argmax_eq_none.mp hargmax] at hvote
      cases hvote
    rw [hnil]
    rfl
  | some vote =>
    have hlatest : IsLatestMostVoted votes vote := by
      refine ⟨List.argmax_mem hargmax, fun other hother => ?_⟩
      exact (List.argmax_eq_some_iff.mp hargmax).2.1 other hother
    obtain ⟨hmem, hindex⟩ := hcounted.latest_eq hlatest
    have hdata := hcounted.data vote hlatest.1
    split
    · rename_i hnil
      rw [hnil] at hmem
      cases hmem
    · rename_i root hone
      rw [hone] at hmem
      rw [← List.mem_singleton.mp hmem, hdata]
      rfl
    · have hlen := List.idxOf_lt_length_iff.mpr (hcounted.mem_order_iff.mpr hlatest.1)
      rw [hindex, List.getElem?_eq_getElem hlen, List.getElem_idxOf, Option.bind_some, hdata]
      rfl

/-! ## A tie -/

/-- Two candidates, voted for once each. -/
def tiedState : Eth1State where
  genesisTime := 0
  slot := 5
  eth1Data := ⟨0, 0, 0⟩
  eth1DataVotes := [⟨0, 1, 0xa⟩, ⟨0, 1, 0xb⟩]
  eth1DepositIndex := 0

/-- The spec votes for the first of the two, the code for the second. -/
theorem pickEth1Vote_tied :
    getEth1Vote OrderDual.toDual tiedState tiedState.eth1DataVotes = ⟨0, 1, 0xa⟩ ∧
      pickEth1Vote tiedState tiedState.eth1DataVotes = ⟨0, 1, 0xb⟩ ∧
      pickEth1Vote tiedState tiedState.eth1DataVotes ≠
        getEth1Vote OrderDual.toDual tiedState tiedState.eth1DataVotes := by
  decide +kernel

end Lodestar.Eth1
