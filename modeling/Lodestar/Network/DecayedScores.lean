import Mathlib.Algebra.Order.Archimedean.Basic
import Mathlib.Tactic.Linarith
import Mathlib.Tactic.NormNum
import Lodestar.Network.Score

/-!
# Bans last, and which scores decay

The store is seen one peer at a time: a `PeerEntry` is what the two maps hold of
the peer, and `act` and `update` are the calls on it. An entry without a time of
a last update does not decay, and only a ban sets the first time.
-/

namespace Lodestar.Network

open Lodestar.Base

variable {Peer K : Type} [DecidableEq Peer] [Field K] [LinearOrder K]

/-! ## The calls on one peer -/

structure PeerEntry (K : Type) where
  score : Option K
  lastUpdate : Option Nat

/-- What the maps hold of the peer. -/
def PeerRpcScoreStore.entry (this : PeerRpcScoreStore Peer K) (peer : Peer) : PeerEntry K :=
  ⟨this.scores.get peer, this.lastUpdate.get peer⟩

omit [Field K] [LinearOrder K] in
theorem PeerRpcScoreStore.entry_score (this : PeerRpcScoreStore Peer K) (peer : Peer) :
    (this.entry peer).score = this.scores.get peer := rfl

/-- The score, decayed for the time from the last update on. -/
def decayed (decay : DecayFactor K) (nowMs : Nat) (lastUpdate : Option Nat) (prevScore : K) : K :=
  prevScore * decay.factor (nowMs - lastUpdate.getD nowMs)

def clampScore (score : K) : K :=
  max (MIN_SCORE : K) (min MAX_SCORE score)

namespace PeerEntry

variable (decay : DecayFactor K) (nowMs : Nat)

def getScore (entry : PeerEntry K) : K := entry.score.getD DEFAULT_SCORE

def act (scoreDelta : Int) (entry : PeerEntry K) : PeerEntry K :=
  let newScore := clampScore (decayed decay nowMs entry.lastUpdate entry.getScore + scoreDelta)
  { score := some newScore
    lastUpdate :=
      if scoreToState entry.getScore ≠ .Banned ∧ scoreToState newScore = .Banned then
        some (nowMs + BANNED_BEFORE_DECAY_MS)
      else entry.lastUpdate.map (max nowMs) }

def update (entry : PeerEntry K) : PeerEntry K :=
  match entry.score with
  | none => entry
  | some prevScore =>
    let newScore := decayed decay nowMs entry.lastUpdate prevScore
    if |newScore| < SCORE_THRESHOLD then ⟨none, none⟩
    else ⟨some newScore, entry.lastUpdate.map (max nowMs)⟩

end PeerEntry

namespace PeerRpcScoreStore

variable {decay : DecayFactor K} {nowMs : Nat} {this : PeerRpcScoreStore Peer K}
  {peer other : Peer} {prevScore : K}

theorem decayScore_eq (decay : DecayFactor K) (nowMs : Nat)
    (h : prevScore = 0 → this.lastUpdate.get peer = none) :
    (this.decayScore decay nowMs peer prevScore).1
      = decayed decay nowMs (this.lastUpdate.get peer) prevScore ∧
    (this.decayScore decay nowMs peer prevScore).2.scores = this.scores ∧
    ∀ other, (this.decayScore decay nowMs peer prevScore).2.lastUpdate.get other =
      if other = peer then (this.lastUpdate.get peer).map (max nowMs)
      else this.lastUpdate.get other := by
  unfold decayScore decayed
  cases hlast : this.lastUpdate.get peer with
  | none =>
    refine ⟨?_, ?_, fun other => ?_⟩
    · simp [decay.zero]
    · simp
    · by_cases hother : other = peer
      · simp [hother, hlast]
      · simp [hother]
  | some last =>
    have hne : prevScore ≠ 0 := fun hzero => by simp [h hzero] at hlast
    by_cases hlt : last < nowMs
    · have hcond : ((nowMs : Int) - last > 0 ∧ prevScore ≠ 0) := ⟨by omega, hne⟩
      have htoNat : ((nowMs : Int) - last).toNat = nowMs - last := by omega
      simp only [Option.getD_some, if_pos hcond, htoNat, true_and]
      intro other
      rw [OrderedMap.get_set, Option.map_some, max_eq_left hlt.le]
    · have hcond : ¬ ((nowMs : Int) - last > 0 ∧ prevScore ≠ 0) := by omega
      have hzero : nowMs - last = 0 := by omega
      simp only [Option.getD_some, if_neg hcond, hzero, decay.zero, mul_one, true_and]
      intro other
      rw [Option.map_some, max_eq_right (not_lt.mp hlt), ← hlast]
      split_ifs with hother
      · rw [hother]
      · rfl

theorem clampScore_eq (score : K) :
    (if (if score > MAX_SCORE then (MAX_SCORE : K) else score) < MIN_SCORE then (MIN_SCORE : K)
      else if score > MAX_SCORE then MAX_SCORE else score) = clampScore score := by
  have hmin : (if score > MAX_SCORE then (MAX_SCORE : K) else score) = min (MAX_SCORE : K) score := by
    rw [min_def]
    split_ifs with h1 h2 h2
    · rfl
    · exact absurd h1.le h2
    · exact le_antisymm (not_lt.mp h1) h2
    · rfl
  rw [hmin, clampScore, max_def]
  split_ifs with h1 h2 h2
  · exact absurd h1 (not_lt.mpr h2)
  · rfl
  · rfl
  · exact absurd (not_lt.mp h1) h2

/-- A score of zero has no time of a last update. -/
def NoZeroKept (this : PeerRpcScoreStore Peer K) (peer : Peer) : Prop :=
  this.getScore peer = 0 → this.lastUpdate.get peer = none

theorem entry_add (h : this.NoZeroKept peer) (scoreDelta : Int) :
    (this.add decay nowMs peer scoreDelta).entry other =
      if other = peer then (this.entry peer).act decay nowMs scoreDelta else this.entry other := by
  obtain ⟨hscore, hscores, hlast⟩ := decayScore_eq decay nowMs h
  have hget : (this.entry peer).getScore = this.getScore peer := rfl
  have hentry : (this.entry peer).lastUpdate = this.lastUpdate.get peer := rfl
  unfold PeerEntry.act
  rw [hget, hentry, ← hscore]
  unfold entry add
  simp only [clampScore_eq, hscores]
  by_cases hother : other = peer
  · subst hother
    have hlastOther := hlast other
    rw [if_pos rfl] at hlastOther ⊢
    split_ifs
    · simp only [OrderedMap.get_set_self]
    · simp only [OrderedMap.get_set_self, hlastOther]
  · have hlastOther := hlast other
    rw [if_neg hother] at hlastOther ⊢
    split_ifs
    · simp only [OrderedMap.get_set_of_ne hother, hlastOther]
    · simp only [OrderedMap.get_set_of_ne hother, hlastOther]

theorem entry_updateEntry {score : K} (h : this.NoZeroKept peer)
    (hget : this.scores.get peer = some score) :
    (this.updateEntry decay nowMs (peer, score)).entry other =
      if other = peer then (this.entry peer).update decay nowMs else this.entry other := by
  have hscoreOf : this.getScore peer = score := by rw [getScore, hget, Option.getD_some]
  obtain ⟨hscore, hscores, hlast⟩ :=
    decayScore_eq decay nowMs fun hzero => h (hscoreOf.trans hzero)
  have hentry : this.entry peer = ⟨some score, this.lastUpdate.get peer⟩ := by rw [entry, hget]
  unfold updateEntry PeerEntry.update
  simp only [hscore, hscores, hentry]
  by_cases hother : other = peer
  · subst hother
    have hlastOther := hlast other
    rw [if_pos rfl] at hlastOther ⊢
    split_ifs
    · simp only [entry, OrderedMap.get_delete_self]
    · simp only [entry, OrderedMap.get_set_self, hlastOther]
  · have hlastOther := hlast other
    rw [if_neg hother] at hlastOther ⊢
    split_ifs
    · simp only [entry, OrderedMap.get_delete_of_ne hother, hlastOther]
    · simp only [entry, OrderedMap.get_set_of_ne hother, hlastOther]

theorem entry_foldl_updateEntry {entries : List (Peer × K)}
    (hnodup : (entries.map Prod.fst).Nodup)
    (hget : ∀ entry ∈ entries, this.scores.get entry.1 = some entry.2)
    (hkept : ∀ entry ∈ entries, this.NoZeroKept entry.1) :
    (entries.foldl (updateEntry decay nowMs) this).entry other =
      if other ∈ entries.map Prod.fst then (this.entry other).update decay nowMs
      else this.entry other := by
  induction entries generalizing this with
  | nil => rfl
  | cons first entries ih =>
    rw [List.map_cons, List.nodup_cons] at hnodup
    rw [List.forall_mem_cons] at hget hkept
    have hne : ∀ entry ∈ entries, entry.1 ≠ first.1 := fun entry hentry heq =>
      hnodup.1 (heq ▸ List.mem_map_of_mem hentry)
    -- the other entries are as they were
    have hothers : ∀ entry ∈ entries,
        (this.updateEntry decay nowMs first).entry entry.1 = this.entry entry.1 := by
      intro entry hentry
      rw [entry_updateEntry hkept.1 hget.1, if_neg (hne entry hentry)]
    rw [List.foldl_cons, ih hnodup.2]
    · rw [entry_updateEntry hkept.1 hget.1]
      by_cases hfirst : other = first.1
      · subst hfirst
        rw [if_neg hnodup.1, if_pos rfl, if_pos (List.mem_map_of_mem List.mem_cons_self)]
      · simp only [hfirst, if_false, List.map_cons, List.mem_cons, false_or]
    · intro entry hentry
      rw [← hget.2 entry hentry]
      exact congrArg PeerEntry.score (hothers entry hentry)
    · intro entry hentry hzero
      have hold := hothers entry hentry
      refine (congrArg PeerEntry.lastUpdate hold).trans (hkept.2 entry hentry ?_)
      rw [← hzero]
      exact congrArg PeerEntry.getScore hold.symm

theorem entry_update (hscores : this.scores.size ≤ MAX_ENTRIES)
    (hlastUpdate : this.lastUpdate.size ≤ MAX_ENTRIES) (hkept : ∀ peer, this.NoZeroKept peer) :
    (this.update decay nowMs).entry other = (this.entry other).update decay nowMs := by
  unfold update
  rw [OrderedMap.pruneToMax_of_size_le hscores, OrderedMap.pruneToMax_of_size_le hlastUpdate]
  dsimp only
  rw [entry_foldl_updateEntry this.scores.nodup
    (fun entry hentry => OrderedMap.get_eq_some_iff.mpr hentry) fun entry _ => hkept entry.1]
  split_ifs with hmem
  · rfl
  · have hnone : this.scores.get other = none := OrderedMap.get_eq_none_iff.mpr hmem
    rw [PeerEntry.update, entry, hnone]

end PeerRpcScoreStore

/-! ## The decay of a negative score -/

section

variable [IsStrictOrderedRing K] {decay : DecayFactor K} {score : K} {nowMs : Nat}
  {last : Option Nat}

omit [IsStrictOrderedRing K] in
theorem DecayFactor.le_one (decay : DecayFactor K) (t : Nat) : decay.factor t ≤ 1 :=
  decay.zero ▸ decay.strictAnti.antitone (Nat.zero_le t)

theorem decayed_nonpos (h : score ≤ 0) : decayed decay nowMs last score ≤ 0 :=
  mul_nonpos_of_nonpos_of_nonneg h (decay.pos _).le

theorem le_decayed (h : score ≤ 0) : score ≤ decayed decay nowMs last score := by
  unfold decayed
  have := mul_le_mul_of_nonpos_left (decay.le_one (nowMs - last.getD nowMs)) h
  rwa [mul_one] at this

omit [IsStrictOrderedRing K] in
theorem decayed_none : decayed decay nowMs none score = score := by
  rw [decayed, Option.getD_none, Nat.sub_self, decay.zero, mul_one]

omit [IsStrictOrderedRing K] in
theorem decayed_of_le {t : Nat} (h : nowMs ≤ t) : decayed decay nowMs (some t) score = score := by
  rw [decayed, Option.getD_some, Nat.sub_eq_zero_of_le h, decay.zero, mul_one]

theorem peerActionScore_le (action : PeerAction) : peerActionScore action ≤ -1 := by
  cases action <;> decide

omit [IsStrictOrderedRing K] in
theorem scoreToState_eq_banned_iff : scoreToState score = .Banned ↔ score ≤ -50 := by
  have hban : ((MIN_SCORE_BEFORE_BAN : Int) : K) = -50 := by norm_num [MIN_SCORE_BEFORE_BAN]
  unfold scoreToState
  rw [hban]
  split_ifs with h1 h2
  · exact iff_of_true rfl h1
  · exact iff_of_false nofun h1
  · exact iff_of_false nofun h1

theorem clampScore_le (h : score ≤ 0) : clampScore score = max (-100) score := by
  have hmin : ((MIN_SCORE : Int) : K) = -100 := by norm_num [MIN_SCORE]
  have hmax : ((MAX_SCORE : Int) : K) = 100 := by norm_num [MAX_SCORE]
  rw [clampScore, hmin, hmax, min_eq_right (by linarith)]

omit [LinearOrder K] [IsStrictOrderedRing K] in
theorem threshold_eq : ((SCORE_THRESHOLD : Int) : K) = 1 := by norm_num [SCORE_THRESHOLD]

end

/-! ## What is known of a peer -/

section

variable [IsStrictOrderedRing K] {decay : DecayFactor K} {now nowMs touched banEnd : Nat}
  {entry : PeerEntry K} {scoreDelta : Int}

/-- `touched` is when the score last changed or was updated, and `banEnd` when the last ban ends or
0. -/
structure PeerEntry.Tracked (now touched banEnd : Nat) (entry : PeerEntry K) : Prop where
  ge : ∀ score, entry.score = some score → -100 ≤ score
  le : ∀ score, entry.score = some score → score ≤ -1
  scored : entry.score = none → entry.lastUpdate = none
  last : ∀ t, entry.lastUpdate = some t → t = max touched banEnd
  held : banEnd ≠ 0 → now ≤ banEnd → entry.getScore ≤ -50 ∧ entry.lastUpdate ≠ none
  touched_le : touched ≤ now

namespace PeerEntry

omit [IsStrictOrderedRing K] in
theorem Tracked.mono (h : entry.Tracked now touched banEnd) (hle : now ≤ nowMs) :
    entry.Tracked nowMs touched banEnd :=
  { h with
    held := fun hban hnow => h.held hban (hle.trans hnow)
    touched_le := h.touched_le.trans hle }

omit [LinearOrder K] [IsStrictOrderedRing K] in
theorem getScore_none (h : entry.score = none) : entry.getScore = 0 := by
  rw [getScore, h, Option.getD_none]
  norm_num [DEFAULT_SCORE]

theorem Tracked.getScore_nonpos (h : entry.Tracked now touched banEnd) : entry.getScore ≤ 0 := by
  cases hscore : entry.score with
  | none => rw [getScore_none hscore]
  | some score =>
    rw [getScore, hscore, Option.getD_some]
    linarith [h.le score hscore]

theorem Tracked.ne_zero {score : K} (h : entry.Tracked now touched banEnd)
    (hscore : entry.score = some score) : score ≠ 0 := by
  have := h.le score hscore
  intro hzero
  linarith

omit [IsStrictOrderedRing K] in
theorem Tracked.last_max (h : entry.Tracked now touched banEnd) (hle : now ≤ nowMs) {t : Nat}
    (ht : entry.lastUpdate.map (max nowMs) = some t) : t = max nowMs banEnd := by
  obtain ⟨last, hlast, rfl⟩ := Option.map_eq_some_iff.mp ht
  have := h.last last hlast
  have := h.touched_le
  omega

omit [IsStrictOrderedRing K] in
theorem Tracked.decayed_of_held {score : K} (h : entry.Tracked now touched banEnd)
    (hle : now ≤ nowMs) (hban : banEnd ≠ 0) (hnow : nowMs ≤ banEnd) :
    decayed decay nowMs entry.lastUpdate score = score := by
  obtain ⟨last, hlast⟩ := Option.ne_none_iff_exists'.mp (h.held hban (hle.trans hnow)).2
  have := h.last last hlast
  rw [hlast]
  exact decayed_of_le (by omega)

theorem Tracked.update (h : entry.Tracked now touched banEnd) (hle : now ≤ nowMs) :
    (entry.update decay nowMs).Tracked nowMs nowMs banEnd := by
  unfold PeerEntry.update
  cases hscore : entry.score with
  | none =>
    refine ⟨h.ge, h.le, h.scored, fun t ht => ?_, (h.mono hle).held, le_rfl⟩
    rw [h.scored hscore] at ht
    cases ht
  | some score =>
    have hge := h.ge score hscore
    have hle1 := h.le score hscore
    have hnonpos : decayed decay nowMs entry.lastUpdate score ≤ 0 := decayed_nonpos (by linarith)
    have hdecayed : score ≤ decayed decay nowMs entry.lastUpdate score := le_decayed (by linarith)
    have hheld : banEnd ≠ 0 → nowMs ≤ banEnd →
        decayed decay nowMs entry.lastUpdate score ≤ -50 ∧ entry.lastUpdate ≠ none := by
      intro hban hnow
      have hold := h.held hban (hle.trans hnow)
      rw [getScore, hscore, Option.getD_some] at hold
      rw [h.decayed_of_held hle hban hnow]
      exact hold
    simp only [threshold_eq]
    split_ifs with hsmall
    · refine ⟨nofun, nofun, fun _ => rfl, nofun, fun hban hnow => ?_, le_rfl⟩
      have := (hheld hban hnow).1
      rw [abs_of_nonpos hnonpos] at hsmall
      linarith
    · rw [abs_of_nonpos hnonpos, not_lt] at hsmall
      refine ⟨?_, ?_, nofun, fun t => h.last_max hle, fun hban hnow => ?_, le_rfl⟩
      · rintro _ ⟨⟩
        linarith
      · rintro _ ⟨⟩
        linarith
      · obtain ⟨hbanned, hsome⟩ := hheld hban hnow
        exact ⟨hbanned, by simpa using hsome⟩

theorem Tracked.not_banned_update (h : entry.Tracked now touched banEnd)
    (hbanned : scoreToState entry.getScore ≠ .Banned) :
    scoreToState (entry.update decay nowMs).getScore ≠ .Banned := by
  rw [ne_eq, scoreToState_eq_banned_iff, not_le] at hbanned ⊢
  unfold PeerEntry.update
  cases hscore : entry.score with
  | none => exact hbanned
  | some score =>
    have hle := h.le score hscore
    have hdecayed : score ≤ decayed decay nowMs entry.lastUpdate score := le_decayed (by linarith)
    rw [getScore, hscore, Option.getD_some] at hbanned
    dsimp only
    split_ifs
    · rw [getScore_none rfl]
      norm_num
    · exact hbanned.trans_le hdecayed

theorem Tracked.act (h : entry.Tracked now touched banEnd) (hle : now ≤ nowMs)
    (hdelta : scoreDelta ≤ -1) :
    (entry.act decay nowMs scoreDelta).Tracked nowMs nowMs
      (if scoreToState entry.getScore ≠ .Banned ∧
          scoreToState (entry.act decay nowMs scoreDelta).getScore = .Banned then
        nowMs + BANNED_BEFORE_DECAY_MS
      else banEnd) := by
  have hnonpos : decayed decay nowMs entry.lastUpdate entry.getScore ≤ 0 :=
    decayed_nonpos h.getScore_nonpos
  have hdeltaCast : (scoreDelta : K) ≤ -1 := by exact_mod_cast hdelta
  have hget : (entry.act decay nowMs scoreDelta).getScore
      = max (-100) (decayed decay nowMs entry.lastUpdate entry.getScore + scoreDelta) :=
    clampScore_le (by linarith)
  have hscore : (entry.act decay nowMs scoreDelta).score
      = some (entry.act decay nowMs scoreDelta).getScore := rfl
  refine ⟨?_, ?_, nofun, ?_, ?_, le_rfl⟩
  · rw [hscore, hget]
    rintro _ ⟨⟩
    exact le_max_left _ _
  · rw [hscore, hget]
    rintro _ ⟨⟩
    exact max_le (by norm_num) (by linarith)
  · intro t ht
    split_ifs with henters
    · have : (entry.act decay nowMs scoreDelta).lastUpdate
          = some (nowMs + BANNED_BEFORE_DECAY_MS) := if_pos henters
      rw [this] at ht
      have := Option.some.inj ht
      omega
    · have : (entry.act decay nowMs scoreDelta).lastUpdate
          = entry.lastUpdate.map (max nowMs) := if_neg henters
      rw [this] at ht
      exact h.last_max hle ht
  · split_ifs with henters
    · intro _ _
      refine ⟨scoreToState_eq_banned_iff.mp henters.2, ?_⟩
      have : (entry.act decay nowMs scoreDelta).lastUpdate
          = some (nowMs + BANNED_BEFORE_DECAY_MS) := if_pos henters
      rw [this]
      nofun
    · intro hban hnow
      obtain ⟨hbanned, hsome⟩ := h.held hban (hle.trans hnow)
      have : (entry.act decay nowMs scoreDelta).lastUpdate
          = entry.lastUpdate.map (max nowMs) := if_neg henters
      rw [this, hget, h.decayed_of_held hle hban hnow]
      exact ⟨max_le (by norm_num) (by linarith), by simpa using hsome⟩

/-! ## Updates without actions -/

variable {score : K} {t : Nat} {times : List Nat}

omit [IsStrictOrderedRing K] in
theorem updates_of_score_none (h : entry.score = none) :
    times.foldl (fun entry t => entry.update decay t) entry = entry := by
  induction times with
  | nil => rfl
  | cons t times ih =>
    have hupdate : entry.update decay t = entry := by rw [PeerEntry.update, h]
    rw [List.foldl_cons, hupdate, ih]

omit [IsStrictOrderedRing K] in
theorem updates_of_lastUpdate_none (hscore : entry.score = some score)
    (hlast : entry.lastUpdate = none) (habs : 1 ≤ |score|) :
    times.foldl (fun entry t => entry.update decay t) entry = entry := by
  induction times with
  | nil => rfl
  | cons t times ih =>
    have hupdate : entry.update decay t = entry := by
      unfold PeerEntry.update
      rw [hscore]
      simp only [hlast, decayed_none, threshold_eq, if_neg (not_lt.mpr habs), Option.map_none]
      rw [← hscore, ← hlast]
    rw [List.foldl_cons, hupdate, ih]

theorem updates_removed (hscore : entry.score = some score) (hlast : entry.lastUpdate = some t)
    (habs : 1 ≤ |score|) (hsorted : (t :: times).Pairwise (· < ·))
    (hsmall : |score| * decay.factor 1 ^ times.length < 1) :
    (times.foldl (fun entry t => entry.update decay t) entry).score = none := by
  induction times generalizing entry score t with
  | nil =>
    rw [List.length_nil, pow_zero, mul_one] at hsmall
    exact absurd habs (not_le.mpr hsmall)
  | cons next times ih =>
    rw [List.pairwise_cons] at hsorted
    have hlt : t < next := hsorted.1 next List.mem_cons_self
    obtain ⟨k, hk⟩ : ∃ k, k = next - t := ⟨_, rfl⟩
    have hupdate : entry.update decay next =
        if |score * decay.factor k| < 1 then ⟨none, none⟩
        else ⟨some (score * decay.factor k), some next⟩ := by
      unfold PeerEntry.update decayed
      rw [hscore]
      simp only [hlast, threshold_eq, Option.getD_some, Option.map_some, max_eq_left hlt.le, ← hk]
    rw [List.foldl_cons, hupdate]
    split_ifs with hremoved
    · rw [updates_of_score_none rfl]
    · refine ih rfl rfl (not_lt.mp hremoved) hsorted.2 (lt_of_le_of_lt ?_ hsmall)
      have hfactor : decay.factor k ≤ decay.factor 1 :=
        decay.strictAnti.antitone (by omega)
      rw [abs_mul, abs_of_pos (decay.pos k), List.length_cons, pow_succ', ← mul_assoc]
      have hpow : 0 ≤ decay.factor 1 ^ times.length := pow_nonneg (decay.pos 1).le _
      gcongr

end PeerEntry

end

end Lodestar.Network
