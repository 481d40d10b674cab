import Mathlib.Algebra.Order.BigOperators.Group.List
import Mathlib.Algebra.Order.Ring.Rat
import Mathlib.Data.List.Induction
import Mathlib.Data.Rat.Floor
import Lodestar.Network.DecayedScores

/-!
# Runs of a score store

The calls of a run come at times that do not go back. Beside the store a run is
observed for the times that decay is about: when a score last changed or was
updated, and when the last ban of a peer ends.
-/

namespace Lodestar.Network

open Lodestar.Base

variable {Peer K : Type} [DecidableEq Peer] [Field K] [LinearOrder K]

/-! ## Runs -/

inductive Call (Peer : Type) where
  | applyAction (peer : Peer) (action : PeerAction)
  | update

/-- The call changes or updates the score of the peer. -/
def Call.touches (peer : Peer) : Call Peer → Prop
  | .applyAction other _ => peer = other
  | .update => True

instance (peer : Peer) (call : Call Peer) : Decidable (call.touches peer) := by
  cases call
  · exact inferInstanceAs (Decidable (_ = _))
  · exact inferInstanceAs (Decidable True)

structure Observed (Peer K : Type) where
  store : PeerRpcScoreStore Peer K
  /-- When the score of a peer last changed or was updated. -/
  touched : Peer → Nat
  /-- When the last ban of a peer ends. -/
  banEnd : Peer → Nat

def PeerRpcScoreStore.call (decay : DecayFactor K) (nowMs : Nat)
    (this : PeerRpcScoreStore Peer K) : Call Peer → PeerRpcScoreStore Peer K
  | .applyAction peer action => this.applyAction decay nowMs peer action
  | .update => this.update decay nowMs

namespace Observed

def start : Observed Peer K := ⟨.new, fun _ => 0, fun _ => 0⟩

/-- A call at its time. -/
def next (decay : DecayFactor K) (o : Observed Peer K) (call : Nat × Call Peer) :
    Observed Peer K where
  store := o.store.call decay call.1 call.2
  touched peer := if call.2.touches peer then call.1 else o.touched peer
  banEnd peer :=
    if o.store.getScoreState peer ≠ .Banned ∧
        (o.store.call decay call.1 call.2).getScoreState peer = .Banned then
      call.1 + BANNED_BEFORE_DECAY_MS
    else o.banEnd peer

/-- The score of the peer is not held, nor changed or updated, from then on. -/
def freeSince (o : Observed Peer K) (peer : Peer) : Nat := max (o.touched peer) (o.banEnd peer)

end Observed

def observe (decay : DecayFactor K) (calls : List (Nat × Call Peer)) : Observed Peer K :=
  calls.foldl (.next decay) .start

/-- Calls at non-decreasing times, about at most `MAX_ENTRIES` peers. -/
structure IsRun (peers : List Peer) (calls : List (Nat × Call Peer)) : Prop where
  length_le : peers.length ≤ MAX_ENTRIES
  mem : ∀ t peer action, (t, Call.applyAction peer action) ∈ calls → peer ∈ peers
  sorted : (calls.map Prod.fst).Pairwise (· ≤ ·)

/-! ## The properties of a run -/

/-- A score below the threshold is removed. -/
def keptScore (score : K) : Option K :=
  if |score| < SCORE_THRESHOLD then none else some score

/-- Bans last; at each update every score has decayed for the whole time in which no ban held it
since its last change or update; and without further actions every score is removed at last. -/
structure BansLastAndScoresDecay (decay : DecayFactor K) (calls : List (Nat × Call Peer)) :
    Prop where
  bansLast : ∀ before nowMs call during after peer,
    calls = before ++ (nowMs, call) :: (during ++ after) →
    (observe decay before).store.getScoreState peer ≠ .Banned →
    (observe decay (before ++ [(nowMs, call)])).store.getScoreState peer = .Banned →
    (∀ other ∈ during, other.1 ≤ nowMs + BANNED_BEFORE_DECAY_MS) →
    (observe decay (before ++ (nowMs, call) :: during)).store.getScoreState peer = .Banned
  decays : ∀ before nowMs after peer score, calls = before ++ (nowMs, .update) :: after →
    (observe decay before).store.scores.get peer = some score →
    (observe decay (before ++ [(nowMs, .update)])).store.scores.get peer =
      keptScore (score * decay.factor (nowMs - (observe decay before).freeSince peer))
  removed : ∀ before after peer, calls = before ++ after →
    ∃ n, ∀ times : List Nat, times.Pairwise (· < ·) →
      (∀ t ∈ times, (∀ call ∈ before, call.1 ≤ t) ∧ (observe decay before).freeSince peer < t) →
      n ≤ times.length →
      (observe decay (before ++ times.map fun t => (t, .update))).store.scores.get peer = none

/-- Every action on a peer without a score is fatal. -/
def FirstActionsBan (decay : DecayFactor K) (calls : List (Nat × Call Peer)) : Prop :=
  ∀ before nowMs peer action after, calls = before ++ (nowMs, .applyAction peer action) :: after →
    (observe decay before).store.scores.get peer = none → action = .Fatal

/-! ## The states of a run -/

section

variable [IsStrictOrderedRing K] {decay : DecayFactor K} {peers : List Peer} {now nowMs : Nat}
  {o : Observed Peer K} {peer other : Peer} {action : PeerAction}
  {calls before after : List (Nat × Call Peer)} {call : Nat × Call Peer}

structure Observed.Reached (peers : List Peer) (now : Nat) (o : Observed Peer K) : Prop where
  tracked : ∀ peer, (o.store.entry peer).Tracked now (o.touched peer) (o.banEnd peer)
  mem : ∀ peer, (o.store.entry peer).score ≠ none → peer ∈ peers

namespace Observed.Reached

omit [IsStrictOrderedRing K] in
theorem mono (h : o.Reached peers now) (hle : now ≤ nowMs) : o.Reached peers nowMs :=
  ⟨fun peer => (h.tracked peer).mono hle, h.mem⟩

theorem noZeroKept (h : o.Reached peers now) (peer : Peer) : o.store.NoZeroKept peer := by
  intro hzero
  cases hscore : (o.store.entry peer).score with
  | none => exact (h.tracked peer).scored hscore
  | some score =>
    have hget : o.store.getScore peer = score := congrArg (Option.getD · _) hscore
    exact absurd (hget.symm.trans hzero) ((h.tracked peer).ne_zero hscore)

omit [IsStrictOrderedRing K] in
theorem size_le {α : Type} {m : OrderedMap Peer α} (hlength : peers.length ≤ MAX_ENTRIES)
    (h : ∀ peer, m.get peer ≠ none → peer ∈ peers) : m.size ≤ MAX_ENTRIES := by
  have hsub : m.keys ⊆ peers := fun peer hmem => h peer (OrderedMap.mem_keys_iff.mp hmem)
  have hkeys : m.keys.length = m.size := List.length_map ..
  rw [← hkeys]
  exact (List.subperm_of_subset m.nodup hsub).length_le.trans hlength

theorem entry_update (h : o.Reached peers now) (hlength : peers.length ≤ MAX_ENTRIES)
    (peer : Peer) :
    (o.next decay (nowMs, .update)).store.entry peer
      = (o.store.entry peer).update decay nowMs := by
  have hscores : o.store.scores.size ≤ MAX_ENTRIES := size_le hlength h.mem
  have hlastUpdate : o.store.lastUpdate.size ≤ MAX_ENTRIES :=
    size_le hlength fun peer hlast =>
      h.mem peer fun hnone => hlast ((h.tracked peer).scored hnone)
  dsimp only [Observed.next, PeerRpcScoreStore.call]
  exact PeerRpcScoreStore.entry_update hscores hlastUpdate h.noZeroKept

theorem entry_applyAction (h : o.Reached peers now) :
    (o.next decay (nowMs, .applyAction peer action)).store.entry other =
      if other = peer then (o.store.entry peer).act decay nowMs (peerActionScore action)
      else o.store.entry other :=
  PeerRpcScoreStore.entry_add (h.noZeroKept peer) _

omit [IsStrictOrderedRing K] in
theorem banEnd_next : (o.next decay call).banEnd peer =
    if scoreToState (o.store.entry peer).getScore ≠ .Banned ∧
        scoreToState ((o.next decay call).store.entry peer).getScore = .Banned then
      call.1 + BANNED_BEFORE_DECAY_MS
    else o.banEnd peer := rfl

theorem next_update (h : o.Reached peers now) (hlength : peers.length ≤ MAX_ENTRIES)
    (hle : now ≤ nowMs) : (o.next decay (nowMs, .update)).Reached peers nowMs := by
  constructor
  · intro peer
    have htouched : (o.next decay (nowMs, .update)).touched peer = nowMs := rfl
    rw [banEnd_next, h.entry_update hlength, htouched, if_neg]
    · exact (h.tracked peer).update hle
    · exact fun henters => (h.tracked peer).not_banned_update henters.1 henters.2
  · intro peer hscore
    rw [h.entry_update hlength] at hscore
    refine h.mem peer fun hnone => hscore ?_
    rw [PeerEntry.update, hnone]
    exact hnone

theorem next_applyAction (h : o.Reached peers now) (hle : now ≤ nowMs) (hmem : peer ∈ peers) :
    (o.next decay (nowMs, .applyAction peer action)).Reached peers nowMs := by
  constructor
  · intro other
    by_cases hother : other = peer
    · subst hother
      have htouched : (o.next decay (nowMs, .applyAction other action)).touched other = nowMs :=
        if_pos rfl
      rw [banEnd_next, h.entry_applyAction, htouched, if_pos rfl]
      exact (h.tracked other).act hle (peerActionScore_le action)
    · have htouched : (o.next decay (nowMs, .applyAction peer action)).touched other
          = o.touched other := if_neg hother
      rw [banEnd_next, h.entry_applyAction, htouched, if_neg hother,
        if_neg fun henters => henters.1 henters.2]
      exact (h.tracked other).mono hle
  · intro other hscore
    rw [h.entry_applyAction] at hscore
    by_cases hother : other = peer
    · exact hother ▸ hmem
    · rw [if_neg hother] at hscore
      exact h.mem other hscore

end Observed.Reached

omit [IsStrictOrderedRing K] in
theorem observe_snoc (calls : List (Nat × Call Peer)) (call : Nat × Call Peer) :
    observe decay (calls ++ [call]) = (observe decay calls).next decay call := by
  rw [observe, List.foldl_append]
  rfl

omit [DecidableEq Peer] in
theorem IsRun.left (h : IsRun peers (before ++ after)) : IsRun peers before where
  length_le := h.length_le
  mem t peer action hmem := h.mem t peer action (List.mem_append_left _ hmem)
  sorted := by
    have := h.sorted
    rw [List.map_append] at this
    exact (List.pairwise_append.mp this).1

omit [DecidableEq Peer] in
theorem IsRun.le (h : IsRun peers (before ++ call :: after)) : ∀ other ∈ before, other.1 ≤ call.1 := by
  intro other hother
  have := h.sorted
  rw [List.map_append] at this
  exact (List.pairwise_append.mp this).2.2 _ (List.mem_map_of_mem hother) _
    (List.mem_map_of_mem List.mem_cons_self)

theorem IsRun.reached (h : IsRun peers calls) (hnow : ∀ call ∈ calls, call.1 ≤ now) :
    (observe decay calls).Reached peers now := by
  induction calls using List.reverseRecOn generalizing now with
  | nil =>
    refine ⟨fun peer => ⟨nofun, nofun, fun _ => rfl, nofun, fun hban => absurd rfl hban, ?_⟩,
      fun peer hscore => absurd rfl hscore⟩
    exact Nat.zero_le _
  | append_singleton calls call ih =>
    have hold := ih h.left h.le
    rw [observe_snoc]
    refine Observed.Reached.mono ?_ (hnow call (List.mem_append_right _ List.mem_cons_self))
    obtain ⟨nowMs, call⟩ := call
    cases call with
    | applyAction peer action =>
      refine hold.next_applyAction le_rfl (h.mem nowMs peer action ?_)
      exact List.mem_append_right _ List.mem_cons_self
    | update => exact hold.next_update h.length_le le_rfl

/-! ## Bans -/

theorem IsRun.banned_of_banEnd {during : List (Nat × Call Peer)}
    (h : IsRun peers (before ++ during))
    (hbanned : (observe decay before).store.getScoreState peer = .Banned)
    (hpos : (observe decay before).banEnd peer ≠ 0)
    (hduring : ∀ other ∈ during, other.1 ≤ (observe decay before).banEnd peer) :
    (observe decay (before ++ during)).store.getScoreState peer = .Banned ∧
      (observe decay (before ++ during)).banEnd peer = (observe decay before).banEnd peer := by
  induction during using List.reverseRecOn with
  | nil => exact ⟨by rwa [List.append_nil], by rw [List.append_nil]⟩
  | append_singleton during call ih =>
    rw [← List.append_assoc] at h ⊢
    obtain ⟨hstill, hend⟩ := ih h.left fun other hother =>
      hduring other (List.mem_append_left _ hother)
    have hle := hduring call (List.mem_append_right _ List.mem_cons_self)
    have hreached : (observe decay (before ++ during ++ [call])).Reached peers call.1 :=
      h.reached fun other hother => by
        rcases List.mem_append.mp hother with hold | hcall
        · exact h.le other hold
        · exact (List.mem_singleton.mp hcall) ▸ le_rfl
    have hsame : (observe decay (before ++ during ++ [call])).banEnd peer
        = (observe decay before).banEnd peer := by
      rw [observe_snoc, Observed.Reached.banEnd_next, if_neg fun henters => henters.1 hstill, hend]
    have hheld := (hreached.tracked peer).held (hsame ▸ hpos) (hsame ▸ hle)
    exact ⟨scoreToState_eq_banned_iff.mpr hheld.1, hsame⟩

theorem IsRun.bansLast (h : IsRun peers calls) {during : List (Nat × Call Peer)}
    {call : Call Peer} (heq : calls = before ++ (nowMs, call) :: (during ++ after))
    (hnot : (observe decay before).store.getScoreState peer ≠ .Banned)
    (hbanned : (observe decay (before ++ [(nowMs, call)])).store.getScoreState peer = .Banned)
    (hduring : ∀ other ∈ during, other.1 ≤ nowMs + BANNED_BEFORE_DECAY_MS) :
    (observe decay (before ++ (nowMs, call) :: during)).store.getScoreState peer = .Banned := by
  have hend : (observe decay (before ++ [(nowMs, call)])).banEnd peer
      = nowMs + BANNED_BEFORE_DECAY_MS := by
    rw [observe_snoc] at hbanned ⊢
    exact if_pos ⟨hnot, hbanned⟩
  have hpos : nowMs + BANNED_BEFORE_DECAY_MS ≠ 0 := by
    unfold BANNED_BEFORE_DECAY_MS
    omega
  have hsplit : calls = (before ++ [(nowMs, call)] ++ during) ++ after := by simp [heq]
  have hrun := (hsplit ▸ h).left.banned_of_banEnd hbanned (hend ▸ hpos) (hend ▸ hduring)
  rw [List.append_assoc] at hrun
  exact hrun.1

theorem IsRun.exists_reached (h : IsRun peers calls) :
    ∃ now, (∀ call ∈ calls, call.1 ≤ now) ∧ (observe decay calls).Reached peers now := by
  have hle : ∀ call ∈ calls, call.1 ≤ (calls.map Prod.fst).sum := fun call hcall =>
    List.le_sum_of_mem (List.mem_map_of_mem hcall)
  exact ⟨_, hle, h.reached hle⟩

/-! ## Scores with a time of a last update -/

/-- Each peer with a score has a time of a last update. -/
def Observed.Dated (o : Observed Peer K) : Prop :=
  ∀ peer, (o.store.entry peer).score ≠ none → (o.store.entry peer).lastUpdate ≠ none

omit [IsStrictOrderedRing K] in
theorem PeerEntry.lastUpdate_update {entry : PeerEntry K}
    (h : entry.score ≠ none → entry.lastUpdate ≠ none)
    (hscore : (entry.update decay nowMs).score ≠ none) :
    (entry.update decay nowMs).lastUpdate ≠ none := by
  unfold PeerEntry.update at hscore ⊢
  cases hold : entry.score with
  | none =>
    simp only [hold] at hscore
    exact absurd rfl hscore
  | some score =>
    have hlast := h (hold ▸ Option.some_ne_none score)
    simp only [hold] at hscore
    dsimp only
    split_ifs at hscore ⊢
    · exact absurd rfl hscore
    · simpa using hlast

theorem PeerEntry.lastUpdate_act_fatal {entry : PeerEntry K} (hscore : entry.score = none) :
    (entry.act decay nowMs (peerActionScore .Fatal)).lastUpdate ≠ none := by
  have hzero := getScore_none hscore
  have hdelta : ((peerActionScore .Fatal : Int) : K) = -200 := by
    norm_num [peerActionScore, MAX_SCORE, MIN_SCORE]
  have henters : scoreToState entry.getScore ≠ .Banned ∧
      scoreToState (clampScore (decayed decay nowMs entry.lastUpdate entry.getScore
        + (peerActionScore .Fatal : Int))) = .Banned := by
    rw [ne_eq, scoreToState_eq_banned_iff, scoreToState_eq_banned_iff, hzero, decayed, zero_mul,
      zero_add, hdelta, clampScore_le (by norm_num)]
    constructor <;> norm_num
  unfold PeerEntry.act
  dsimp only
  rw [if_pos henters]
  exact Option.some_ne_none _

theorem IsRun.dated (h : IsRun peers calls) (hfirst : FirstActionsBan decay calls) :
    (observe decay calls).Dated := by
  induction calls using List.reverseRecOn with
  | nil => exact fun peer hscore => absurd rfl hscore
  | append_singleton calls call ih =>
    have hold := ih h.left fun before nowMs peer action after heq =>
      hfirst before nowMs peer action (after ++ [call]) (by simp [heq])
    have hreached : (observe decay calls).Reached peers call.1 := h.left.reached h.le
    rw [observe_snoc]
    obtain ⟨nowMs, call⟩ := call
    intro other
    cases call with
    | update =>
      rw [hreached.entry_update h.length_le]
      exact PeerEntry.lastUpdate_update (hold other)
    | applyAction peer action =>
      rw [hreached.entry_applyAction]
      split_ifs with hother
      · subst hother
        intro _
        cases hscore : ((observe decay calls).store.entry other).score with
        | none =>
          rw [hfirst calls nowMs other action [] rfl hscore]
          exact PeerEntry.lastUpdate_act_fatal hscore
        | some score =>
          have hlast := hold other (hscore ▸ Option.some_ne_none score)
          unfold PeerEntry.act
          dsimp only
          split_ifs
          · exact Option.some_ne_none _
          · simpa using hlast
      · exact hold other

theorem IsRun.decays {score : K} (h : IsRun peers calls) (hfirst : FirstActionsBan decay calls)
    (heq : calls = before ++ (nowMs, .update) :: after)
    (hscore : (observe decay before).store.scores.get peer = some score) :
    (observe decay (before ++ [(nowMs, .update)])).store.scores.get peer =
      keptScore (score * decay.factor (nowMs - (observe decay before).freeSince peer)) := by
  subst heq
  have hbefore : FirstActionsBan decay before := fun left t other action right heq =>
    hfirst left t other action (right ++ (nowMs, .update) :: after) (by simp [heq])
  have hentry : ((observe decay before).store.entry peer).score = some score := hscore
  have hreached : (observe decay before).Reached peers nowMs := h.left.reached h.le
  obtain ⟨last, hlast⟩ := Option.ne_none_iff_exists'.mp
    (h.left.dated hbefore peer (hentry ▸ Option.some_ne_none score))
  have hfree : last = (observe decay before).freeSince peer :=
    (hreached.tracked peer).last last hlast
  rw [observe_snoc, ← PeerRpcScoreStore.entry_score, hreached.entry_update h.length_le]
  unfold PeerEntry.update keptScore
  simp only [hentry, hlast, decayed, Option.getD_some, hfree]
  split_ifs <;> rfl

/-! ## Updates at the end of a run -/

omit [DecidableEq Peer] in
theorem IsRun.append_updates (h : IsRun peers calls) {times : List Nat}
    (hsorted : times.Pairwise (· < ·)) (hle : ∀ t ∈ times, ∀ call ∈ calls, call.1 ≤ t) :
    IsRun peers (calls ++ times.map fun t => (t, .update)) where
  length_le := h.length_le
  mem t peer action hmem := by
    rcases List.mem_append.mp hmem with hmem | hmem
    · exact h.mem t peer action hmem
    · simp at hmem
  sorted := by
    have htimes : (times.map fun t => ((t, .update) : Nat × Call Peer)).map Prod.fst = times := by
      rw [List.map_map]
      exact List.map_id _
    rw [List.map_append, htimes]
    refine List.pairwise_append.mpr ⟨h.sorted, hsorted.imp fun hlt => hlt.le, ?_⟩
    intro a ha t ht
    obtain ⟨call, hcall, rfl⟩ := List.mem_map.mp ha
    exact hle t ht call hcall

theorem IsRun.entry_updates {times : List Nat}
    (h : IsRun peers (calls ++ times.map fun t => (t, .update))) (peer : Peer) :
    (observe decay (calls ++ times.map fun t => (t, .update))).store.entry peer =
      times.foldl (fun entry t => entry.update decay t) ((observe decay calls).store.entry peer) := by
  induction times using List.reverseRecOn with
  | nil => rw [List.map_nil, List.append_nil, List.foldl_nil]
  | append_singleton times t ih =>
    rw [List.map_append, ← List.append_assoc] at h ⊢
    have hreached : (observe decay _).Reached peers t := h.left.reached h.le
    rw [List.map_singleton, observe_snoc, hreached.entry_update h.length_le, ih h.left,
      List.foldl_append]
    rfl

theorem IsRun.removed [Archimedean K] (h : IsRun peers calls)
    (hfirst : FirstActionsBan decay calls) (heq : calls = before ++ after) (peer : Peer) :
    ∃ n, ∀ times : List Nat, times.Pairwise (· < ·) →
      (∀ t ∈ times, (∀ call ∈ before, call.1 ≤ t) ∧ (observe decay before).freeSince peer < t) →
      n ≤ times.length →
      (observe decay (before ++ times.map fun t => (t, .update))).store.scores.get peer = none := by
  subst heq
  have hlt : decay.factor 1 < 1 := decay.zero ▸ decay.strictAnti Nat.zero_lt_one
  obtain ⟨n, hn⟩ := exists_pow_lt_of_lt_one (show (0 : K) < 1 / 100 by norm_num) hlt
  refine ⟨n, fun times hsorted htimes hlength => ?_⟩
  have hrun := h.left.append_updates hsorted fun t ht => (htimes t ht).1
  rw [← PeerRpcScoreStore.entry_score, hrun.entry_updates]
  cases hscore : ((observe decay before).store.entry peer).score with
  | none => rw [PeerEntry.updates_of_score_none hscore, hscore]
  | some score =>
    have hbefore : FirstActionsBan decay before := fun left t other action right heq =>
      hfirst left t other action (right ++ after) (by simp [heq])
    obtain ⟨last, hlast⟩ := Option.ne_none_iff_exists'.mp
      (h.left.dated hbefore peer (hscore ▸ Option.some_ne_none score))
    obtain ⟨now, -, hreached⟩ : ∃ now, _ ∧ (observe decay before).Reached peers now :=
      h.left.exists_reached
    have htracked := hreached.tracked peer
    have hge := htracked.ge score hscore
    have hle := htracked.le score hscore
    have hfree : last = (observe decay before).freeSince peer := htracked.last last hlast
    have habs : |score| = -score := abs_of_nonpos (by linarith)
    refine PeerEntry.updates_removed hscore hlast (by linarith) ?_ ?_
    · rw [hfree]
      exact List.pairwise_cons.mpr ⟨fun t ht => (htimes t ht).2, hsorted⟩
    · have hpow : decay.factor 1 ^ times.length ≤ decay.factor 1 ^ n :=
        pow_le_pow_of_le_one (decay.pos 1).le hlt.le hlength
      have hpos : 0 ≤ decay.factor 1 ^ times.length := pow_nonneg (decay.pos 1).le _
      calc |score| * decay.factor 1 ^ times.length
          ≤ 100 * decay.factor 1 ^ times.length :=
            mul_le_mul_of_nonneg_right (by linarith) hpos
        _ < 1 := by linarith

/-! ## A first action that does not ban -/

theorem Observed.Reached.entry_first (h : o.Reached peers now)
    (hscore : o.store.scores.get peer = none) (haction : action ≠ .Fatal) :
    ∃ score : K, 1 ≤ |score| ∧
      (o.next decay (nowMs, .applyAction peer action)).store.entry peer = ⟨some score, none⟩ := by
  have hentry : (o.store.entry peer).score = none := hscore
  have hlast := (h.tracked peer).scored hentry
  have hle : ((peerActionScore action : Int) : K) ≤ -1 := by
    exact_mod_cast peerActionScore_le action
  have hgt : (-50 : K) < (peerActionScore action : Int) := by
    have : -50 < peerActionScore action := by
      cases action with
      | Fatal => exact absurd rfl haction
      | LowToleranceError => decide
      | MidToleranceError => decide
      | HighToleranceError => decide
    exact_mod_cast this
  refine ⟨peerActionScore action, ?_, ?_⟩
  · rw [abs_of_nonpos (by linarith)]
    linarith
  · rw [h.entry_applyAction, if_pos rfl]
    have hnew : clampScore (decayed decay nowMs none (0 : K) + (peerActionScore action : Int))
        = (peerActionScore action : Int) := by
      rw [decayed, zero_mul, zero_add, clampScore_le (by linarith), max_eq_right (by linarith)]
    unfold PeerEntry.act
    rw [PeerEntry.getScore_none hentry, hlast, hnew]
    dsimp only
    rw [if_neg fun henters => not_le.mpr hgt (scoreToState_eq_banned_iff.mp henters.2)]
    rfl

theorem IsRun.not_removed (h : IsRun peers (before ++ (nowMs, .applyAction peer action) :: after))
    (hscore : (observe decay before).store.scores.get peer = none) (haction : action ≠ .Fatal) :
    ¬ BansLastAndScoresDecay decay (before ++ (nowMs, .applyAction peer action) :: after) := by
  intro hdecay
  obtain ⟨calls, hcalls⟩ : ∃ calls, calls = before ++ [(nowMs, .applyAction peer action)] := ⟨_, rfl⟩
  have hsplit : before ++ (nowMs, .applyAction peer action) :: after = calls ++ after := by
    simp [hcalls]
  have hrun : IsRun peers calls := (hsplit ▸ h).left
  have hreached : (observe decay before).Reached peers nowMs := h.left.reached h.le
  obtain ⟨score, habs, hentry⟩ : ∃ score : K, 1 ≤ |score| ∧
      ((observe decay before).next decay (nowMs, .applyAction peer action)).store.entry peer
        = ⟨some score, none⟩ :=
    hreached.entry_first hscore haction
  rw [← observe_snoc, ← hcalls] at hentry
  obtain ⟨n, hn⟩ := hdecay.removed calls after peer hsplit
  obtain ⟨now, hnow, -⟩ : ∃ now, _ ∧ (observe decay calls).Reached peers now :=
    hrun.exists_reached
  obtain ⟨bound, hbound⟩ : ∃ bound, bound = now + (observe decay calls).freeSince peer + 1 :=
    ⟨_, rfl⟩
  have hsorted : ((List.range n).map (bound + ·)).Pairwise (· < ·) :=
    List.pairwise_map.mpr (List.pairwise_lt_range.imp fun hlt => Nat.add_lt_add_left hlt bound)
  have hlate : ∀ t ∈ (List.range n).map (bound + ·), now + (observe decay calls).freeSince peer < t := by
    intro t ht
    obtain ⟨i, -, rfl⟩ := List.mem_map.mp ht
    omega
  have hremoved := hn _ hsorted (fun t ht =>
    ⟨fun call hcall => (hnow call hcall).trans (by have := hlate t ht; omega),
      by have := hlate t ht; omega⟩) (by simp)
  have hupdates := hrun.append_updates hsorted fun t ht call hcall =>
    (hnow call hcall).trans (by have := hlate t ht; omega)
  rw [← PeerRpcScoreStore.entry_score, hupdates.entry_updates,
    PeerEntry.updates_of_lastUpdate_none (by rw [hentry]) (by rw [hentry]) habs, hentry] at hremoved
  cases hremoved

theorem bansLastAndScoresDecay_iff [Archimedean K] (h : IsRun peers calls) :
    BansLastAndScoresDecay decay calls ↔ FirstActionsBan decay calls := by
  constructor
  · intro hdecay before nowMs peer action after heq hscore
    subst heq
    by_contra haction
    exact h.not_removed hscore haction hdecay
  · intro hfirst
    exact {
      bansLast := fun before nowMs call during after peer => h.bansLast
      decays := fun before nowMs after peer score => h.decays hfirst
      removed := fun before after peer heq => h.removed hfirst heq peer }

end

/-! ## Two runs -/

/-- A score halves in every millisecond. -/
def halving : DecayFactor Rat where
  factor t := (1 / 2) ^ t
  zero := pow_zero _
  pos t := by positivity
  strictAnti _ _ h := pow_lt_pow_right_of_lt_one₀ (by norm_num) (by norm_num) h

/-- One action on peer 7, and an update after ten minutes. -/
def oneAction (action : PeerAction) : List (Nat × Call Nat) :=
  [(0, .applyAction 7 action), (600000, .update)]

theorem isRun_oneAction (action : PeerAction) : IsRun [7] (oneAction action) where
  length_le := by decide
  mem t peer action hmem := by
    simp only [oneAction, List.mem_cons, Prod.mk.injEq, Call.applyAction.injEq] at hmem
    simp_all
  sorted := by simp [oneAction]

theorem bansLastAndScoresDecay_iff_fatal : BansLastAndScoresDecay halving (oneAction .Fatal) := by
  refine (bansLastAndScoresDecay_iff (isRun_oneAction .Fatal)).mpr ?_
  intro before nowMs peer action after heq _
  rcases before with _ | ⟨first, _ | ⟨second, before⟩⟩
  · simp [oneAction] at heq
    exact heq.1.2.2.symm
  · simp [oneAction] at heq
  · simp [oneAction] at heq

/-- The score of the peer stays at -10. -/
theorem lowTolerance_not_bansLastAndScoresDecay :
    ¬ ∀ (decay : DecayFactor Rat) (peers : List Nat) (calls : List (Nat × Call Nat)),
      IsRun peers calls → BansLastAndScoresDecay decay calls := by
  intro h
  have hrun : IsRun [7] ([] ++ (0, .applyAction 7 .LowToleranceError) :: [(600000, .update)]) :=
    isRun_oneAction .LowToleranceError
  exact hrun.not_removed rfl (by decide) (h halving [7] _ hrun)

end Lodestar.Network
