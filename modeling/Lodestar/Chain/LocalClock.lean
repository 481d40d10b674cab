import Lodestar.StateTransition.Util

/-!
# The chain clock

`chain/clock/LocalClock.ts`. A notification is synchronous: while a listener
runs, the loop of `onNextSlot` waits, and a read of `currentSlot` may start
another one. The calls that wait are kept as a stack.
-/

namespace Lodestar.Chain

open Lodestar.StateTransition

inductive ClockNotice where
  | clockSlot (slot : Int)
  | clockEpoch (epoch : Int)
  deriving DecidableEq

/-- A call of `onNextSlot` that is notifying the listeners. -/
structure OnNextSlot where
  clockSlot : Int
  previousSlot : Int
  notice : ClockNotice
  /-- The listeners still to be notified. -/
  waiting : List Nat
  /-- Whether one is being notified. -/
  listening : Bool
  deriving DecidableEq

structure ClockConfig where
  config : ChainConfig
  genesisTime : Int
  /-- The number of listeners. -/
  listeners : Nat

structure LocalClock where
  /-- `Date.now()`. -/
  now : Int
  currentSlot : Int
  timeoutId : Nat
  /-- The timeouts that are set, with their times. -/
  timeouts : List (Nat × Int)
  nextTimeout : Nat
  /-- The innermost call first. -/
  calls : List OnNextSlot
  /-- What the listeners received, in order. -/
  received : List (Nat × ClockNotice)
  deriving DecidableEq

inductive ClockEvent where
  /-- Time passes. -/
  | time (now : Int)
  /-- A timeout calls `onNextSlot`. -/
  | timeout (timeoutId : Nat)
  /-- The getter `currentSlot`. -/
  | currentSlot
  /-- The listener that is being notified returns, and the loop goes on. -/
  | next
  | abort
  deriving DecidableEq

namespace LocalClock

variable (opts : ClockConfig) (this : LocalClock)

def slotNow : Int := StateTransition.getCurrentSlot opts.config opts.genesisTime this.now

def msUntilNextSlot : Int :=
  let miliSecondsPerSlot : Int := opts.config.SECONDS_PER_SLOT * 1000
  let diffInMiliSeconds := this.now - opts.genesisTime * 1000
  miliSecondsPerSlot - diffInMiliSeconds.tmod miliSecondsPerSlot

/-- `this.timeoutId = setTimeout(this.onNextSlot, this.msUntilNextSlot())`. -/
def setTimeout : LocalClock :=
  { this with
    timeoutId := this.nextTimeout
    timeouts := this.timeouts ++ [(this.nextTimeout, this.now + this.msUntilNextSlot opts)]
    nextTimeout := this.nextTimeout + 1 }

def clearTimeout (timeoutId : Nat) : LocalClock :=
  { this with timeouts := this.timeouts.filter fun timeout => timeout.1 ≠ timeoutId }

def new (now : Int) : LocalClock :=
  let this : LocalClock :=
    { now, currentSlot := 0, timeoutId := 0, timeouts := [], nextTimeout := 0, calls := [],
      received := [] }
  { this.setTimeout opts with currentSlot := this.slotNow opts }

/-- The head of the loop of `onNextSlot`; after the last turn the next timeout is set. -/
def onNextSlot (clockSlot : Int) : LocalClock :=
  if this.currentSlot < clockSlot then
    { this with
      currentSlot := this.currentSlot + 1
      calls :=
        { clockSlot
          previousSlot := this.currentSlot
          notice := .clockSlot (this.currentSlot + 1)
          waiting := List.range opts.listeners
          listening := false } :: this.calls }
  else this.setTimeout opts

def readCurrentSlot : LocalClock :=
  if this.currentSlot < this.slotNow opts then
    (this.clearTimeout this.timeoutId).onNextSlot opts (this.slotNow opts)
  else this

section

variable [Preset]

/-- The next listener is notified, or the next event emitted, or the loop goes on. -/
def continueCall (call : OnNextSlot) (calls : List OnNextSlot) : LocalClock :=
  match call.waiting, call.notice with
  | listener :: waiting, notice =>
    { this with
      calls := { call with waiting, listening := true } :: calls
      received := this.received ++ [(listener, notice)] }
  | [], .clockSlot _ =>
    let previousEpoch := epochAtSlot call.previousSlot
    let currentEpoch := epochAtSlot this.currentSlot
    if previousEpoch < currentEpoch then
      { this with calls :=
          { call with
            notice := .clockEpoch currentEpoch
            waiting := List.range opts.listeners
            listening := false } :: calls }
    else { this with calls }.onNextSlot opts call.clockSlot
  | [], .clockEpoch _ => { this with calls }.onNextSlot opts call.clockSlot

/-- Whether some code runs that may read the clock. -/
def isRunning : Bool :=
  match this.calls with
  | [] => true
  | call :: _ => call.listening

/-- `none` where the event cannot be. -/
def step : ClockEvent → Option LocalClock
  | .time now => if this.now ≤ now then some { this with now } else none
  | .timeout timeoutId =>
    if this.calls = [] ∧ ∃ timeout ∈ this.timeouts, timeout.1 = timeoutId ∧ timeout.2 ≤ this.now then
      some ((this.clearTimeout timeoutId).onNextSlot opts (this.slotNow opts))
    else none
  | .currentSlot => if this.isRunning then some (this.readCurrentSlot opts) else none
  | .next =>
    match this.calls with
    | [] => none
    | call :: calls => some (this.continueCall opts call calls)
  | .abort => some (this.clearTimeout this.timeoutId)

/-- The events of a run from a new clock, each of which meets a condition on the state before. -/
inductive Run (C : LocalClock → ClockEvent → Prop) (start : Int) :
    List ClockEvent → LocalClock → Prop where
  | start : Run C start [] (.new opts start)
  | step {events : List ClockEvent} {this this' : LocalClock} {e : ClockEvent} :
      Run C start events this → C this e → this.step opts e = some this' →
      Run C start (events ++ [e]) this'

/-! ## Once and in order -/

/-- A slot is announced, and after the first slot of an epoch the epoch. -/
def announcement (slot : Int) : List ClockNotice :=
  if slot % SLOTS_PER_EPOCH = 0 then [.clockSlot slot, .clockEpoch (slot / SLOTS_PER_EPOCH)]
  else [.clockSlot slot]

/-- The `n` slots after the starting one. -/
def announcements (startSlot : Int) (n : Nat) : List ClockNotice :=
  (List.range n).flatMap fun i : Nat => announcement (startSlot + i + 1)

def receivedBy (listener : Nat) : List ClockNotice :=
  (this.received.filter fun r => r.1 = listener).map (·.2)

/-- Each listener has received the announcements up to the current slot, or, while they are being
made, the first of them. -/
def AnnouncesOnce (startSlot : Int) : Prop :=
  ∃ n : Nat, this.currentSlot = startSlot + n ∧ ∀ listener < opts.listeners,
    this.receivedBy listener <+: announcements startSlot n ∧
      (this.calls = [] → this.receivedBy listener = announcements startSlot n)

/-- A listener that is being notified reads the clock only if it is not behind. -/
def ReadsInTime : ClockEvent → Prop
  | .currentSlot => this.calls ≠ [] → this.slotNow opts ≤ this.currentSlot
  | _ => True

/-! ## The loop -/

variable {opts : ClockConfig} {this this' : LocalClock} {startSlot : Int} {n : Nat}

theorem announcements_succ : announcements startSlot (n + 1) =
    announcements startSlot n ++ announcement (startSlot + n + 1) := by
  simp [announcements, List.range_succ]

theorem epochAtSlot_lt_iff (slot : Int) :
    epochAtSlot (slot - 1) < epochAtSlot slot ↔ slot % SLOTS_PER_EPOCH = 0 := by
  have hpos : (0 : Int) < SLOTS_PER_EPOCH := by exact_mod_cast Preset.SLOTS_PER_EPOCH_pos
  unfold epochAtSlot
  have hdiv := Int.mul_ediv_add_emod slot SLOTS_PER_EPOCH
  have hnonneg := Int.emod_nonneg slot (ne_of_gt hpos)
  have hlt := Int.emod_lt_of_pos slot hpos
  constructor
  · intro h
    by_contra hne
    have hle : slot / SLOTS_PER_EPOCH ≤ (slot - 1) / SLOTS_PER_EPOCH := by
      refine Int.le_ediv_of_mul_le hpos ?_
      rw [mul_comm]
      omega
    omega
  · intro h
    refine Int.ediv_lt_of_lt_mul hpos ?_
    rw [mul_comm]
    omega

omit [Preset] in
theorem receivedBy_concat {notified : Nat} {notice : ClockNotice}
    (h : this'.received = this.received ++ [(notified, notice)]) (listener : Nat) :
    this'.receivedBy listener =
      this.receivedBy listener ++ if notified = listener then [notice] else [] := by
  unfold receivedBy
  rw [h, List.filter_append, List.map_append]
  congr 1
  by_cases heq : notified = listener <;> simp [heq]

variable (opts this startSlot n) in
/-- No call is notifying, and the first `n` slots are announced. -/
structure Idle : Prop where
  calls : this.calls = []
  currentSlot : this.currentSlot = startSlot + n
  received : ∀ listener < opts.listeners, this.receivedBy listener = announcements startSlot n

variable (opts this startSlot n) in
/-- One call is notifying: the first `k` listeners have received its notice, after `before`. -/
structure Notifying (call : OnNextSlot) (before : List ClockNotice) (k : Nat) : Prop where
  calls : this.calls = [call]
  currentSlot : this.currentSlot = startSlot + n + 1
  previousSlot : call.previousSlot = startSlot + n
  notice : (call.notice = .clockSlot this.currentSlot ∧ before = announcements startSlot n) ∨
    (call.notice = .clockEpoch (epochAtSlot this.currentSlot) ∧
      this.currentSlot % SLOTS_PER_EPOCH = 0 ∧
      before = announcements startSlot n ++ [.clockSlot this.currentSlot])
  waiting : call.waiting = (List.range opts.listeners).drop k
  received : ∀ listener < opts.listeners,
    this.receivedBy listener = before ++ if listener < k then [call.notice] else []

variable (opts this startSlot) in
def Inv : Prop :=
  (∃ n, Idle opts this startSlot n) ∨ ∃ n call before k, Notifying opts this startSlot n call before k

theorem Idle.onNextSlot (h : Idle opts this startSlot n) (clockSlot : Int) :
    Inv opts (this.onNextSlot opts clockSlot) startSlot := by
  unfold LocalClock.onNextSlot
  split
  · right
    refine ⟨n,
      { clockSlot
        previousSlot := this.currentSlot
        notice := .clockSlot (this.currentSlot + 1)
        waiting := List.range opts.listeners
        listening := false },
      announcements startSlot n, 0, ?_, ?_, h.currentSlot, .inl ⟨rfl, rfl⟩, rfl,
      fun listener hlt => ?_⟩
    · exact congrArg (_ :: ·) h.calls
    · show this.currentSlot + 1 = _
      rw [h.currentSlot]
    · rw [if_neg (Nat.not_lt_zero _), List.append_nil]
      exact h.received listener hlt
  · exact .inl ⟨n, h.calls, h.currentSlot, h.received⟩

theorem Notifying.idle {call : OnNextSlot} {before : List ClockNotice} {k : Nat}
    (h : Notifying opts this startSlot n call before k) (hk : opts.listeners ≤ k)
    (hlast : before ++ [call.notice] = announcements startSlot (n + 1)) :
    Idle opts { this with calls := [] } startSlot (n + 1) := by
  refine ⟨rfl, ?_, fun listener hlt => ?_⟩
  · show this.currentSlot = _
    rw [h.currentSlot]
    push_cast
    ring
  · rw [← hlast]
    have hreceived := h.received listener hlt
    rwa [if_pos (by omega)] at hreceived

theorem Notifying.continueCall {call : OnNextSlot} {before : List ClockNotice} {k : Nat}
    (h : Notifying opts this startSlot n call before k) :
    Inv opts (this.continueCall opts call []) startSlot := by
  have hslot : announcement (startSlot + n + 1) = announcement this.currentSlot := by
    rw [h.currentSlot]
  rcases Nat.lt_or_ge k opts.listeners with hk | hk
  · -- the next listener
    have hwaiting : call.waiting = k :: (List.range opts.listeners).drop (k + 1) := by
      rw [h.waiting, List.drop_eq_getElem_cons (by simpa using hk), List.getElem_range]
    have hcontinue : this.continueCall opts call [] = { this with
        calls := [{ call with
          waiting := (List.range opts.listeners).drop (k + 1), listening := true }]
        received := this.received ++ [(k, call.notice)] } := by
      unfold LocalClock.continueCall
      rw [hwaiting]
    rw [hcontinue]
    refine .inr ⟨n, _, before, k + 1, rfl, h.currentSlot, h.previousSlot, h.notice, rfl,
      fun listener hlt => ?_⟩
    rw [receivedBy_concat rfl, h.received listener hlt, List.append_assoc]
    congr 1
    rcases Nat.lt_trichotomy listener k with hlt | rfl | hgt
    · simp [hlt, Nat.lt_succ_of_lt hlt, Nat.ne_of_gt hlt]
    · simp
    · simp [Nat.not_lt_of_gt hgt, Nat.ne_of_lt hgt, show ¬ listener < k + 1 by omega]
  · have hwaiting : call.waiting = [] := by
      rw [h.waiting]
      exact List.drop_eq_nil_of_le (by simpa using hk)
    have hprevious : call.previousSlot = this.currentSlot - 1 := by
      rw [h.previousSlot, h.currentSlot]
      ring
    rcases h.notice with ⟨hnotice, hbefore⟩ | ⟨hnotice, hstart, hbefore⟩
    · by_cases hepoch : this.currentSlot % SLOTS_PER_EPOCH = 0
      · -- the epoch is next
        have hcontinue : this.continueCall opts call [] = { this with calls :=
            [{ call with
              notice := .clockEpoch (epochAtSlot this.currentSlot)
              waiting := List.range opts.listeners
              listening := false }] } := by
          unfold LocalClock.continueCall
          rw [hwaiting, hnotice]
          exact if_pos (by rw [hprevious]; exact (epochAtSlot_lt_iff _).2 hepoch)
        rw [hcontinue]
        refine .inr ⟨n, _, announcements startSlot n ++ [.clockSlot this.currentSlot], 0, rfl,
          h.currentSlot, h.previousSlot, .inr ⟨rfl, hepoch, rfl⟩, rfl, fun listener hlt => ?_⟩
        have hreceived := h.received listener hlt
        rw [if_pos (by omega), hnotice, hbefore] at hreceived
        rw [if_neg (Nat.not_lt_zero _), List.append_nil]
        exact hreceived
      · have hcontinue : this.continueCall opts call [] =
            { this with calls := [] }.onNextSlot opts call.clockSlot := by
          unfold LocalClock.continueCall
          rw [hwaiting, hnotice]
          exact if_neg (by rw [hprevious]; exact mt (epochAtSlot_lt_iff _).1 hepoch)
        rw [hcontinue]
        refine (h.idle hk ?_).onNextSlot _
        rw [announcements_succ, hslot, hnotice, hbefore]
        unfold announcement
        rw [if_neg hepoch]
    · have hcontinue : this.continueCall opts call [] =
          { this with calls := [] }.onNextSlot opts call.clockSlot := by
        unfold LocalClock.continueCall
        rw [hwaiting, hnotice]
      rw [hcontinue]
      refine (h.idle hk ?_).onNextSlot _
      rw [announcements_succ, hslot, hnotice, hbefore]
      unfold announcement epochAtSlot
      rw [if_pos hstart, List.append_assoc]
      rfl

theorem Inv.frame (h : Inv opts this startSlot) (hcalls : this'.calls = this.calls)
    (hslot : this'.currentSlot = this.currentSlot) (hreceived : this'.received = this.received) :
    Inv opts this' startSlot := by
  have hby : ∀ listener, this'.receivedBy listener = this.receivedBy listener := by
    intro listener
    unfold receivedBy
    rw [hreceived]
  rcases h with ⟨n, h⟩ | ⟨n, call, before, k, h⟩
  · left
    refine ⟨n, hcalls.trans h.calls, hslot.trans h.currentSlot, fun listener hlt => ?_⟩
    rw [hby]
    exact h.received listener hlt
  · right
    refine ⟨n, call, before, k, hcalls.trans h.calls, hslot.trans h.currentSlot, h.previousSlot, ?_,
      h.waiting, fun listener hlt => ?_⟩
    · rw [hslot]
      exact h.notice
    · rw [hby]
      exact h.received listener hlt

theorem Inv.idle (h : Inv opts this startSlot) (hcalls : this.calls = []) :
    ∃ n, Idle opts this startSlot n := by
  rcases h with h | ⟨n, call, before, k, h⟩
  · exact h
  · rw [h.calls] at hcalls
    cases hcalls

theorem Inv.catchUp (h : Inv opts this startSlot) (hcalls : this.calls = []) (timeoutId : Nat)
    (clockSlot : Int) :
    Inv opts ((this.clearTimeout timeoutId).onNextSlot opts clockSlot) startSlot := by
  have hinv : Inv opts (this.clearTimeout timeoutId) startSlot := h.frame rfl rfl rfl
  obtain ⟨n, hidle⟩ := hinv.idle hcalls
  exact hidle.onNextSlot clockSlot

theorem Inv.step {e : ClockEvent} (h : Inv opts this startSlot) (hread : ReadsInTime opts this e)
    (hstep : this.step opts e = some this') : Inv opts this' startSlot := by
  cases e with
  | time now =>
    simp only [LocalClock.step] at hstep
    split at hstep
    · obtain rfl := Option.some.inj hstep
      exact h.frame rfl rfl rfl
    · cases hstep
  | timeout timeoutId =>
    simp only [LocalClock.step] at hstep
    split at hstep
    next hfires =>
      obtain rfl := Option.some.inj hstep
      exact h.catchUp hfires.1 timeoutId _
    next => cases hstep
  | currentSlot =>
    simp only [LocalClock.step] at hstep
    split at hstep
    · obtain rfl := Option.some.inj hstep
      unfold readCurrentSlot
      split
      next hbehind =>
        -- a listener that is being notified does not come here
        have hcalls : this.calls = [] := by
          by_contra hne
          have hle : this.slotNow opts ≤ this.currentSlot := hread hne
          omega
        exact h.catchUp hcalls _ _
      next => exact h
    · cases hstep
  | next =>
    simp only [LocalClock.step] at hstep
    rcases h with ⟨n, h⟩ | ⟨n, call, before, k, h⟩
    · rw [h.calls] at hstep
      cases hstep
    · rw [h.calls] at hstep
      obtain rfl := Option.some.inj hstep
      exact h.continueCall
  | abort =>
    simp only [LocalClock.step] at hstep
    obtain rfl := Option.some.inj hstep
    exact h.frame rfl rfl rfl

theorem Inv.new (start : Int) :
    Inv opts (.new opts start) (getCurrentSlot opts.config opts.genesisTime start) := by
  refine .inl ⟨0, rfl, ?_, fun _ _ => rfl⟩
  show getCurrentSlot opts.config opts.genesisTime start = _
  simp

theorem Run.inv {start : Int} {events : List ClockEvent}
    (hrun : Run opts (ReadsInTime opts) start events this) :
    Inv opts this (getCurrentSlot opts.config opts.genesisTime start) := by
  induction hrun with
  | start => exact Inv.new start
  | step _ hread hstep ih => exact ih.step hread hstep

theorem Notifying.receivedBy_prefix {call : OnNextSlot} {before : List ClockNotice} {k : Nat}
    (h : Notifying opts this startSlot n call before k) {listener : Nat}
    (hlt : listener < opts.listeners) :
    this.receivedBy listener <+: announcements startSlot (n + 1) := by
  have hslot : announcement (startSlot + n + 1) = announcement this.currentSlot := by
    rw [h.currentSlot]
  have hbefore : before ++ [call.notice] <+: announcements startSlot (n + 1) := by
    rw [announcements_succ, hslot]
    unfold announcement
    rcases h.notice with ⟨hnotice, hbefore⟩ | ⟨hnotice, hstart, hbefore⟩
    · rw [hnotice, hbefore, List.prefix_append_right_inj]
      split <;> simp
    · rw [hnotice, hbefore, if_pos hstart, List.append_assoc]
      exact List.prefix_rfl
  rw [h.received listener hlt]
  split
  · exact hbefore
  · rw [List.append_nil]
    exact (List.prefix_append before _).trans hbefore

theorem announces_once {start : Int} {events : List ClockEvent}
    (hrun : Run opts (ReadsInTime opts) start events this) :
    AnnouncesOnce opts this (getCurrentSlot opts.config opts.genesisTime start) := by
  rcases hrun.inv with ⟨n, h⟩ | ⟨n, call, before, k, h⟩
  · refine ⟨n, h.currentSlot, fun listener hlt => ?_⟩
    rw [h.received listener hlt]
    exact ⟨List.prefix_rfl, fun _ => rfl⟩
  · refine ⟨n + 1, ?_, fun listener hlt => ⟨h.receivedBy_prefix hlt, fun hcalls => ?_⟩⟩
    · rw [h.currentSlot]
      push_cast
      ring
    · rw [h.calls] at hcalls
      cases hcalls

/-! ## A lagging thread -/

instance (e : ClockEvent) : Decidable (ReadsInTime opts this e) :=
  match e with
  | .currentSlot => inferInstanceAs (Decidable (this.calls ≠ [] → this.slotNow opts ≤ this.currentSlot))
  | .time _ | .timeout _ | .next | .abort => .isTrue trivial

variable (opts) in
def exec (C : LocalClock → ClockEvent → Prop) [∀ this e, Decidable (C this e)] (start : Int)
    (events : List ClockEvent) : Option LocalClock :=
  events.foldlM (fun this e => if C this e then step opts this e else none) (.new opts start)

theorem Run.of_exec {C : LocalClock → ClockEvent → Prop} [∀ this e, Decidable (C this e)]
    {start : Int} {events : List ClockEvent} (h : exec opts C start events = some this) :
    Run opts C start events this := by
  induction events using List.reverseRecOn generalizing this with
  | nil =>
    obtain rfl := Option.some.inj h
    exact .start
  | append_singleton events e ih =>
    unfold exec at h
    rw [List.foldlM_append] at h
    obtain ⟨before, hbefore, hlast⟩ := Option.bind_eq_some_iff.1 h
    have hstep : (if C before e then before.step opts e else none) = some this := by
      simpa using hlast
    split at hstep
    next hC => exact .step (ih hbefore) hC hstep
    next => cases hstep

end

attribute [local instance] mainnet

def twoListeners : ClockConfig := ⟨chainConfigMainnet, 0, 2⟩

/-- The timer fires in slot 2, and the first listener reads the clock when it is told of slot 1. -/
def laggingRead : List ClockEvent :=
  [.time 24000, .timeout 0, .next, .currentSlot, .next, .next, .next, .next]

/-- The second listener is told of slot 2 before slot 1. -/
theorem lagging_read_reverses_slots :
    ¬ ∀ this, Run twoListeners (fun _ _ => True) 0 laggingRead this →
      AnnouncesOnce twoListeners this (getCurrentSlot chainConfigMainnet 0 0) := by
  have hreceived : (exec twoListeners (fun _ _ => True) 0 laggingRead).map (·.receivedBy 1) =
      some [.clockSlot 2, .clockSlot 1] := by
    decide +kernel
  intro honce
  obtain ⟨this, hthis, hby⟩ := Option.map_eq_some_iff.1 hreceived
  obtain ⟨n, -, h⟩ := honce this (Run.of_exec hthis)
  have hprefix := (h 1 (by decide)).1
  rw [hby] at hprefix
  have hstart : getCurrentSlot chainConfigMainnet 0 0 = 0 := by decide +kernel
  rw [hstart] at hprefix
  cases n with
  | zero => simp [announcements] at hprefix
  | succ n =>
    have hfirst : announcements 0 (n + 1) = .clockSlot 1 :: (announcements 0 (n + 1)).tail := by
      unfold announcements
      rw [List.range_succ_eq_map, List.flatMap_cons]
      rfl
    rw [hfirst] at hprefix
    simp at hprefix

/-- The listener reads the clock in the slot it is told of. -/
def promptRead : List ClockEvent := [.time 12000, .timeout 0, .next, .currentSlot, .next, .next]

theorem announces_once_promptRead : ∃ this,
    Run twoListeners (ReadsInTime twoListeners) 0 promptRead this ∧
    this.received = [(0, .clockSlot 1), (1, .clockSlot 1)] ∧
    AnnouncesOnce twoListeners this (getCurrentSlot chainConfigMainnet 0 0) := by
  have hreceived : (exec twoListeners (ReadsInTime twoListeners) 0 promptRead).map (·.received) =
      some [(0, .clockSlot 1), (1, .clockSlot 1)] := by
    decide +kernel
  obtain ⟨this, hthis, hreceived⟩ := Option.map_eq_some_iff.1 hreceived
  have hrun : Run twoListeners (ReadsInTime twoListeners) 0 promptRead this := Run.of_exec hthis
  exact ⟨this, hrun, hreceived, announces_once hrun⟩

end LocalClock

/-! ## Reads for gossip -/

/-- In milliseconds. -/
def MAXIMUM_GOSSIP_CLOCK_DISPARITY : Int := 500

/-- A read of the clock by the validation of a gossip message. -/
structure GossipClock where
  config : ChainConfig
  genesisTime : Int
  currentSlot : Int
  /-- `Date.now()`, right after. -/
  now : Int

namespace GossipClock

variable (clock : GossipClock)

/-- `computeTimeAtSlot`, for slots before genesis too, in milliseconds. -/
def msAtSlot (slot : Int) : Int :=
  (clock.genesisTime + slot * clock.config.SECONDS_PER_SLOT) * 1000

def currentSlotWithGossipDisparity : Int :=
  let currentSlot := clock.currentSlot
  if clock.msAtSlot (currentSlot + 1) - clock.now < MAXIMUM_GOSSIP_CLOCK_DISPARITY then
    currentSlot + 1
  else currentSlot

def isCurrentSlotGivenGossipDisparity (slot : Int) : Bool :=
  let currentSlot := clock.currentSlot
  if currentSlot = slot then true
  else if clock.msAtSlot (currentSlot + 1) - clock.now < MAXIMUM_GOSSIP_CLOCK_DISPARITY then
    slot = currentSlot + 1
  else if clock.now - clock.msAtSlot currentSlot < MAXIMUM_GOSSIP_CLOCK_DISPARITY then
    slot = currentSlot - 1
  else false

theorem isCurrentSlotGivenGossipDisparity_ge {clock : GossipClock} {slot : Int}
    (h : clock.isCurrentSlotGivenGossipDisparity slot = true) : clock.currentSlot - 1 ≤ slot := by
  unfold isCurrentSlotGivenGossipDisparity at h
  dsimp only at h
  split_ifs at h with hcurrent hnext hprevious
  · omega
  · have hslot := of_decide_eq_true h
    omega
  · have hslot := of_decide_eq_true h
    omega

end GossipClock

end Lodestar.Chain
