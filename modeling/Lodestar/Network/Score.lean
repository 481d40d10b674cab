import Mathlib.Algebra.Order.Field.Basic
import Lodestar.Base.OrderedMap

/-!
# Peer scores

`network/peers/score.ts`. A score is lowered by the peer's actions and decays with
time. Scores are numbers of an ordered field, and the decay is any positive
factor that gets smaller with the time.
-/

namespace Lodestar.Network

open Lodestar.Base

def DEFAULT_SCORE : Int := 0

/-- The minimum reputation before a peer is disconnected. -/
def MIN_SCORE_BEFORE_DISCONNECT : Int := -20

/-- The minimum reputation before a peer is banned. -/
def MIN_SCORE_BEFORE_BAN : Int := -50

def MAX_SCORE : Int := 100

def MIN_SCORE : Int := -100

/-- A score is dropped if its absolute value is below. -/
def SCORE_THRESHOLD : Int := 1

/-- The milliseconds that a peer is banned for before its score begins to decay. -/
def BANNED_BEFORE_DECAY_MS : Nat := 30 * 60 * 1000

/-- Limit of entries in the maps. -/
def MAX_ENTRIES : Nat := 1000

inductive PeerAction where
  | Fatal
  | LowToleranceError
  | MidToleranceError
  | HighToleranceError
  deriving DecidableEq

def peerActionScore : PeerAction → Int
  | .Fatal => -(MAX_SCORE - MIN_SCORE)
  | .LowToleranceError => -10
  | .MidToleranceError => -5
  | .HighToleranceError => -1

inductive ScoreState where
  | Healthy
  | Disconnected
  | Banned
  deriving DecidableEq

variable {Peer K : Type} [DecidableEq Peer] [Field K] [LinearOrder K]

def scoreToState (score : K) : ScoreState :=
  if score ≤ MIN_SCORE_BEFORE_BAN then .Banned
  else if score ≤ MIN_SCORE_BEFORE_DISCONNECT then .Disconnected
  else .Healthy

/-- `Math.exp(HALFLIFE_DECAY_MS * sinceLastUpdateMs)`. -/
structure DecayFactor (K : Type) [Field K] [LinearOrder K] where
  factor : (sinceLastUpdateMs : Nat) → K
  zero : factor 0 = 1
  pos : ∀ t, 0 < factor t
  strictAnti : StrictAnti factor

/-- The keys are the ids of the peers. -/
structure PeerRpcScoreStore (Peer K : Type) where
  scores : OrderedMap Peer K
  /-- In milliseconds; that of a banned peer is in the future. -/
  lastUpdate : OrderedMap Peer Nat

namespace PeerRpcScoreStore

def new : PeerRpcScoreStore Peer K := ⟨.empty, .empty⟩

def getScore (this : PeerRpcScoreStore Peer K) (peer : Peer) : K :=
  (this.scores.get peer).getD DEFAULT_SCORE

def getScoreState (this : PeerRpcScoreStore Peer K) (peer : Peer) : ScoreState :=
  scoreToState (this.getScore peer)

variable (decay : DecayFactor K) (nowMs : Nat)

/-- The decayed score; the time is kept if it did decay. -/
def decayScore (this : PeerRpcScoreStore Peer K) (peer : Peer) (prevScore : K) :
    K × PeerRpcScoreStore Peer K :=
  let lastUpdate := (this.lastUpdate.get peer).getD nowMs
  let sinceLastUpdateMs : Int := nowMs - lastUpdate
  if sinceLastUpdateMs > 0 ∧ prevScore ≠ 0 then
    (prevScore * decay.factor sinceLastUpdateMs.toNat,
      { this with lastUpdate := this.lastUpdate.set peer nowMs })
  else (prevScore, this)

def add (this : PeerRpcScoreStore Peer K) (peer : Peer) (scoreDelta : Int) :
    PeerRpcScoreStore Peer K :=
  let prevScore := this.getScore peer
  let (decayed, this) := this.decayScore decay nowMs peer prevScore
  let newScore := decayed + scoreDelta
  let newScore := if newScore > MAX_SCORE then (MAX_SCORE : K) else newScore
  let newScore := if newScore < MIN_SCORE then (MIN_SCORE : K) else newScore
  let prevState := scoreToState prevScore
  let newState := scoreToState newScore
  { scores := this.scores.set peer newScore
    lastUpdate :=
      if prevState ≠ .Banned ∧ newState = .Banned then
        this.lastUpdate.set peer (nowMs + BANNED_BEFORE_DECAY_MS)
      else this.lastUpdate }

def applyAction (this : PeerRpcScoreStore Peer K) (peer : Peer) (action : PeerAction) :
    PeerRpcScoreStore Peer K :=
  this.add decay nowMs peer (peerActionScore action)

/-- The loop of `update` at one entry. -/
def updateEntry (this : PeerRpcScoreStore Peer K) (entry : Peer × K) : PeerRpcScoreStore Peer K :=
  let (newScore, this) := this.decayScore decay nowMs entry.1 entry.2
  if |newScore| < SCORE_THRESHOLD then
    { scores := this.scores.delete entry.1, lastUpdate := this.lastUpdate.delete entry.1 }
  else { this with scores := this.scores.set entry.1 newScore }

def update (this : PeerRpcScoreStore Peer K) : PeerRpcScoreStore Peer K :=
  let this : PeerRpcScoreStore Peer K :=
    { scores := this.scores.pruneToMax MAX_ENTRIES
      lastUpdate := this.lastUpdate.pruneToMax MAX_ENTRIES }
  this.scores.entries.foldl (updateEntry decay nowMs) this

end PeerRpcScoreStore

end Lodestar.Network
