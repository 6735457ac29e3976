import Mathlib.Data.List.Chain
import Best1307.Lib.Run

/-!
# Clicks of the keys

Every check interval the key timer handler is given the keys that are down and tells the application of key
events. A press that is released before it is a long press is a click; clicks of the same keys that follow one
another soon enough are counted and reported together.

Beside the handler runs a tracker that knows nothing of its variables: it notes the press and release cycles
of the samples and groups them in bursts. The handler reports the bursts the tracker finishes, unless a long
press comes while a burst is still counted.
-/

namespace Best1307.KeyClick

abbrev Code := BitVec 32

/-- `HAL_KEY_EVENT_T`, in its order. -/
inductive KeyEvent
  | none
  | down
  | firstDown
  | continuedDown
  | up
  | upAfterLongpress
  | longpress
  | longlongpress
  | click
  | doubleclick
  | tripleclick
  | ultraclick
  | rampageclick
  | repeated
  | groupkeyDown
  | groupkeyRepeat
  | initdown
  | initup
  | initlongpress
  | initlonglongpress
  | initfinished
  deriving DecidableEq, Repr

/-- `HAL_KEY_EVENT_CLICK + cnt` -/
def clickPlus (cnt : UInt8) : KeyEvent :=
  let events : List KeyEvent := [.click, .doubleclick, .tripleclick, .ultraclick, .rampageclick, .repeated,
    .groupkeyDown, .groupkeyRepeat, .initdown, .initup, .initlongpress, .initlonglongpress, .initfinished]
  (events[cnt.toNat]?).getD .none

def maxKeyClickCount : UInt8 := 4

/-- The thresholds in ticks, and `KEY_LONGPRESS_REPEAT_THRESHOLD / KEY_CHECKER_INTERVAL`. -/
structure Config where
  doubleclickThreshold : UInt32
  longpressThreshold : UInt32
  longlongpressThreshold : UInt32
  repeatChecks : UInt32
  doubleclick_pos : 0 < doubleclickThreshold
  longpress_pos : 0 < longpressThreshold

/-- 400, 1500 and 5000 ms at 16 ticks each, and 500 ms in checks of 40 ms. -/
def defaultConfig : Config := ⟨6400, 24000, 80000, 12, by decide, by decide⟩

/-- `struct HAL_KEY_STATUS_T`, and what `key_detected_callback` was given. -/
structure State where
  codeDown : Code
  codeReady : Code
  codeClick : Code
  event : KeyEvent
  timeUpdown : UInt32
  timeClick : UInt32
  cntRepeat : UInt8
  cntClick : UInt8
  sent : List (Code × KeyEvent)
  deriving DecidableEq

/-- `hal_key_open` clears `key_status`. -/
def State.opened : State := ⟨0, 0, 0, .none, 0, 0, 0, 0, []⟩

def keys (map : Code) : List Code := ((List.range 32).filter map.getLsbD).map (BitVec.twoPow 32)

namespace State

variable (cfg : Config) (s : State)

def sendKeyEvent (code : Code) (event : KeyEvent) : State := { s with sent := s.sent ++ [(code, event)] }

def InLongPress : Prop := s.event = .longpress ∨ s.event = .longlongpress

instance : Decidable s.InLongPress := inferInstanceAs (Decidable (_ ∨ _))

def upNew (codeDown : Code) : Code := ~~~codeDown &&& s.codeDown

def downNew (codeDown : Code) : Code := codeDown &&& ~~~s.codeDown

def checkUp (time : UInt32) (codeDown : Code) : State :=
  if s.upNew codeDown = 0 then s
  else { s with
    sent := s.sent ++ (keys (s.upNew codeDown)).flatMap fun key =>
      (key, .up) :: if s.InLongPress then [(key, .upAfterLongpress)] else []
    timeUpdown := time
    event :=
      if s.InLongPress then (if codeDown &&& s.codeReady = 0 then .none else s.event)
      else if s.event = .down then .up
      else s.event }

def countClick (time : UInt32) (codeDown : Code) : State :=
  if s.codeClick = 0 ∨ s.codeClick ≠ s.codeReady then
    { (if s.codeClick ≠ 0 then s.sendKeyEvent s.codeClick (clickPlus s.cntClick) else s) with
      codeClick := s.codeReady
      cntClick := 0
      timeClick := time }
  else if s.upNew codeDown ≠ 0 ∧ s.upNew codeDown ||| s.codeDown = s.codeClick then
    { s with cntClick := s.cntClick + 1, timeClick := time }
  else s

def finishClick (time : UInt32) : State :=
  if cfg.doubleclickThreshold ≤ time - s.timeClick ∨ maxKeyClickCount ≤ s.cntClick then
    { s.sendKeyEvent s.codeClick (clickPlus s.cntClick) with codeClick := 0, cntClick := 0, event := .none }
  else s

def checkClick (time : UInt32) (codeDown : Code) : State :=
  if s.event = .up then (s.countClick time codeDown).finishClick cfg time else s

def checkDown (time : UInt32) (codeDown : Code) : State :=
  if s.downNew codeDown = 0 then { s with codeDown := codeDown }
  else { s with
    codeDown := codeDown
    sent := s.sent ++ (keys (s.downNew codeDown)).flatMap fun key =>
      [(key, .down), (key, if s.event = .none then .firstDown else .continuedDown)]
    codeReady := if s.event = .none ∨ s.event = .down ∨ s.event = .up then codeDown else s.codeReady
    timeUpdown := time
    event := if s.event = .none ∨ s.event = .up then .down else s.event }

/-- The repeat and the long long press of keys in a long press. -/
def checkLonglongpress (time : UInt32) : State :=
  let counted := { s with cntRepeat := s.cntRepeat + 1 }
  let repeated :=
    if counted.cntRepeat.toUInt32 = cfg.repeatChecks then
      { counted with cntRepeat := 0 }.sendKeyEvent s.codeReady .repeated
    else counted
  if s.event = .longpress ∧ cfg.longlongpressThreshold ≤ time - s.timeUpdown then
    { repeated with event := .longlongpress }.sendKeyEvent s.codeReady .longlongpress
  else repeated

def checkLongpress (time : UInt32) : State :=
  if s.codeDown &&& s.codeReady = s.codeReady then
    if s.event = .down then
      if cfg.longpressThreshold ≤ time - s.timeUpdown then
        { s with cntRepeat := 0, event := .longpress }.sendKeyEvent s.codeReady .longpress
      else s
    else if s.InLongPress then s.checkLonglongpress cfg time
    else s
  else s

end State

/-- What the timer handler finds: the time and the keys that are down. -/
structure Sample where
  time : UInt32
  codeDown : Code
  deriving DecidableEq

/-- `hal_key_debounce_handler`, once it knows the keys that are down. -/
def step (cfg : Config) (s : State) (sample : Sample) : Option State :=
  let clicked := (s.checkUp sample.time sample.codeDown).checkClick cfg sample.time sample.codeDown
  some ((clicked.checkDown sample.time sample.codeDown).checkLongpress cfg sample.time)

/-- No long press is recognised while clicks are counted that have not been reported. -/
def NoLongPressInBurst (cfg : Config) (s : State) (sample : Sample) : Prop :=
  ¬ (s.event = .down ∧ sample.codeDown = s.codeDown ∧ cfg.longpressThreshold ≤ sample.time - s.timeUpdown ∧
    s.codeClick ≠ 0)

instance (cfg : Config) (s : State) (sample : Sample) : Decidable (NoLongPressInBurst cfg s sample) :=
  inferInstanceAs (Decidable (¬ _))

/-! ### Cycles and bursts -/

/-- A short press: the keys that were down together, when the first of them went down, when one was released,
and how many long presses there had been. -/
structure Cycle where
  combo : Code
  pressed : UInt32
  released : UInt32
  longs : Nat
  deriving DecidableEq

/-- `next` is pressed soon enough after `first` to count as its repetition. -/
def Follows (cfg : Config) (first next : Cycle) : Prop :=
  next.combo = first.combo ∧ next.longs = first.longs ∧ next.pressed - first.released < cfg.doubleclickThreshold

/-- Up to five consecutive cycles, the last of them `last`. -/
structure Burst (cfg : Config) where
  earlier : List Cycle
  last : Cycle
  consecutive : (earlier ++ [last]).IsChain (Follows cfg)
  earlier_le : earlier.length ≤ 4

/-- What is in progress: nothing, a press of `combo` begun at `pressed` that changed last at `since`, or a
long press. -/
inductive Press
  | none
  | down (combo : Code) (pressed since : UInt32)
  | long (combo : Code)
  deriving DecidableEq

/-- The samples as press and release cycles: the bursts that are finished and the one that may go on. -/
structure Tracker (cfg : Config) where
  keysDown : Code
  press : Press
  longs : Nat
  cycles : List Cycle
  finished : List (Burst cfg)
  running : Option (Burst cfg)

def Tracker.start (cfg : Config) : Tracker cfg := ⟨0, .none, 0, [], [], none⟩

variable {cfg : Config}

instance (first next : Cycle) : Decidable (Follows cfg first next) := inferInstanceAs (Decidable (_ ∧ _ ∧ _))

namespace Burst

def cycles (b : Burst cfg) : List Cycle := b.earlier ++ [b.last]

def single (c : Cycle) : Burst cfg := ⟨[], c, List.isChain_singleton c, Nat.zero_le 4⟩

def extend (b : Burst cfg) (c : Cycle) (hfollows : Follows cfg b.last c) (hless : b.earlier.length < 4) :
    Burst cfg where
  earlier := b.earlier ++ [b.last]
  last := c
  consecutive := by
    rw [List.isChain_append]
    refine ⟨b.consecutive, List.isChain_singleton c, fun x hx y hy => ?_⟩
    rw [List.getLast?_concat] at hx
    obtain rfl := Option.some.inj hx
    obtain rfl := Option.some.inj hy
    exact hfollows
  earlier_le := by
    rw [List.length_append]
    exact hless

end Burst

namespace Tracker

variable (t : Tracker cfg)

def finish : Tracker cfg := { t with finished := t.finished ++ t.running.toList, running := none }

/-- A cycle goes to the running burst if it follows its last one, else to a new burst. -/
def cycle (c : Cycle) : Tracker cfg :=
  match t.running with
  | none => { t with cycles := t.cycles ++ [c], running := some (.single c) }
  | some b =>
      if h : Follows cfg b.last c ∧ b.earlier.length < 4 then
        { t with cycles := t.cycles ++ [c], running := some (b.extend c h.1 h.2) }
      else { t.finish with cycles := t.cycles ++ [c], running := some (.single c) }

def release (time : UInt32) (codeDown : Code) : Tracker cfg :=
  if ~~~codeDown &&& t.keysDown = 0 then t
  else match t.press with
    | .none => t
    | .down combo pressed _ => { t with press := .none }.cycle ⟨combo, pressed, time, t.longs⟩
    | .long combo => if codeDown &&& combo = 0 then { t with press := .none } else t

/-- With nothing in progress, the running burst is finished once its time is over or it is full. -/
def rest (time : UInt32) : Tracker cfg :=
  match t.press, t.running with
  | .none, some b =>
      if cfg.doubleclickThreshold ≤ time - b.last.released ∨ b.earlier.length = 4 then t.finish else t
  | _, _ => t

def pressKeys (time : UInt32) (codeDown : Code) : Tracker cfg :=
  if codeDown &&& ~~~t.keysDown = 0 then { t with keysDown := codeDown }
  else match t.press with
    | .none => { t with keysDown := codeDown, press := .down codeDown time time }
    | .down _ pressed _ => { t with keysDown := codeDown, press := .down codeDown pressed time }
    | .long _ => { t with keysDown := codeDown }

/-- A long press finishes the running burst. -/
def hold (time : UInt32) : Tracker cfg :=
  match t.press with
  | .down combo _ since =>
      if cfg.longpressThreshold ≤ time - since then { t.finish with press := .long combo, longs := t.longs + 1 }
      else t
  | _ => t

def observe (sample : Sample) : Tracker cfg :=
  (((t.release sample.time sample.codeDown).rest sample.time).pressKeys sample.time sample.codeDown).hold sample.time

end Tracker

/-- The clicks among the events sent: the keys, and `n` for `CLICK+n`. -/
def clickOf : Code × KeyEvent → Option (Code × Nat)
  | (code, .click) => some (code, 0)
  | (code, .doubleclick) => some (code, 1)
  | (code, .tripleclick) => some (code, 2)
  | (code, .ultraclick) => some (code, 3)
  | (code, .rampageclick) => some (code, 4)
  | _ => none

def State.clicks (s : State) : List (Code × Nat) := s.sent.filterMap clickOf

/-- What is to be reported of a burst. -/
def Burst.report (b : Burst cfg) : Code × Nat := (b.last.combo, b.earlier.length)

/-! ### Keys -/

theorem and_eq_left_of_upNew {old new : Code} (h : ~~~new &&& old = 0) : old &&& new = old := by
  ext i hi
  have hbit : (~~~new &&& old)[i] = (0 : Code)[i] := by rw [h]
  simp only [BitVec.getElem_and, BitVec.getElem_not, BitVec.ofNat_eq_ofNat, BitVec.getElem_zero] at hbit ⊢
  cases hold : old[i] <;> cases hnew : new[i] <;> simp_all only [Bool.and_self, Bool.and_false, Bool.not_false,
    Bool.and_true, reduceCtorEq]

theorem and_eq_right_of_downNew {old new : Code} (h : new &&& ~~~old = 0) : old &&& new = new := by
  rw [BitVec.and_comm]
  exact and_eq_left_of_upNew ((BitVec.and_comm ..).trans h)

theorem and_not_and (old new : Code) : old &&& ~~~(old &&& new) = ~~~new &&& old := by
  ext i hi
  simp only [BitVec.getElem_and, BitVec.getElem_not]
  cases old[i] <;> cases new[i] <;> rfl

theorem upNew_or (s : State) (new : Code) : s.upNew new ||| s.codeDown = s.codeDown := by
  ext i hi
  simp only [State.upNew, BitVec.getElem_or, BitVec.getElem_and, BitVec.getElem_not]
  cases s.codeDown[i] <;> cases new[i] <;> rfl

theorem and_not_mono {x old new : Code} (h : x &&& ~~~old ≠ 0) : x &&& ~~~(old &&& new) ≠ 0 := by
  intro hzero
  refine h (BitVec.eq_of_getLsbD_eq fun i hi => ?_)
  have hbit := congrArg (fun y => BitVec.getLsbD y i) hzero
  simp only [BitVec.getLsbD_and, BitVec.getLsbD_not, hi, decide_true, Bool.true_and, BitVec.ofNat_eq_ofNat,
    BitVec.getLsbD_zero] at hbit ⊢
  cases hx : x.getLsbD i <;> cases hold : old.getLsbD i <;> simp_all only [Bool.and_self, Bool.and_false,
    Bool.false_and, Bool.not_false, Bool.not_true, Bool.and_true, Bool.true_eq_false]

theorem ne_zero_of_downNew {old new : Code} (h : new &&& ~~~old ≠ 0) : new ≠ 0 := by
  rintro rfl
  exact h (BitVec.zero_and ..)

/-! ### Clicks sent -/

theorem clicks_sendKeyEvent (s : State) (code : Code) (event : KeyEvent) :
    (s.sendKeyEvent code event).clicks = s.clicks ++ (clickOf (code, event)).toList := by
  rw [State.clicks, State.sendKeyEvent, List.filterMap_append]
  rfl

theorem clickOf_clickPlus (code : Code) {n : Nat} (hn : n ≤ 4) :
    clickOf (code, clickPlus (UInt8.ofNat n)) = some (code, n) := by
  rcases (show n = 0 ∨ n = 1 ∨ n = 2 ∨ n = 3 ∨ n = 4 by omega) with rfl | rfl | rfl | rfl | rfl
  all_goals rfl

theorem maxKeyClickCount_le {n : Nat} (hn : n ≤ 4) : maxKeyClickCount ≤ UInt8.ofNat n ↔ n = 4 := by
  rcases (show n = 0 ∨ n = 1 ∨ n = 2 ∨ n = 3 ∨ n = 4 by omega) with rfl | rfl | rfl | rfl | rfl
  all_goals decide

theorem clicks_append {s : State} {events : List (Code × KeyEvent)} (h : ∀ e ∈ events, clickOf e = none) :
    (s.sent ++ events).filterMap clickOf = s.clicks := by
  rw [List.filterMap_append, List.filterMap_eq_nil_iff.mpr h, List.append_nil]
  rfl

/-! ### The handler and the tracker agree -/

/-- The clicks counted are those of the running burst. -/
def Clicking (s : State) (t : Tracker cfg) : Option (Burst cfg) → Prop
  | none => s.codeClick = 0
  | some b => s.codeClick = b.last.combo ∧ b.last.combo ≠ 0 ∧ s.cntClick = UInt8.ofNat b.earlier.length ∧
      s.timeClick = b.last.released ∧ b.last.longs = t.longs

/-- The event is what is in progress, with the keys in `held` down. -/
def Pressing (s : State) (t : Tracker cfg) (held : Code) : Press → Prop
  | .none => (t.running = none → s.event = .none) ∧
      ∀ b, t.running = some b → s.event = .up ∧ s.codeReady = b.last.combo ∧ b.last.combo &&& ~~~held ≠ 0
  | .down combo pressed since => s.event = .down ∧ s.codeReady = combo ∧ held = combo ∧ combo ≠ 0 ∧
      s.timeUpdown = since ∧ ∀ b, t.running = some b →
        pressed - b.last.released < cfg.doubleclickThreshold ∧ b.earlier.length < 4
  | .long combo => s.InLongPress ∧ s.codeReady = combo ∧ t.running = none

structure Agrees (s : State) (t : Tracker cfg) (held : Code) : Prop where
  codeDown : s.codeDown = t.keysDown
  reported : s.clicks = t.finished.map Burst.report
  clicking : Clicking s t t.running
  pressing : Pressing s t held t.press

theorem agrees_opened (cfg : Config) : Agrees State.opened (.start cfg) 0 :=
  ⟨rfl, rfl, rfl, fun _ => rfl, fun _ h => by cases h⟩

section Step

variable {s : State} {t : Tracker cfg} {time : UInt32} {held codeDown : Code} {b : Burst cfg}

theorem not_inLongPress_of_eq {event : KeyEvent} (h : s.event = event) (hne : event ≠ .longpress)
    (hne' : event ≠ .longlongpress) : ¬ s.InLongPress := by
  rw [State.InLongPress, h]
  exact not_or.mpr ⟨hne, hne'⟩

/-! ### A release -/

/-- `checkUp` and, where it is called, `countClick`. -/
def counted (s : State) (time : UInt32) (codeDown : Code) : State :=
  if (s.checkUp time codeDown).event = .up then (s.checkUp time codeDown).countClick time codeDown
  else s.checkUp time codeDown

theorem event_countClick : (s.countClick time codeDown).event = s.event := by
  rw [State.countClick]
  split
  · split <;> rfl
  · split <;> rfl

theorem checkClick_eq : (s.checkUp time codeDown).checkClick cfg time codeDown =
    if (counted s time codeDown).event = .up then (counted s time codeDown).finishClick cfg time
    else counted s time codeDown := by
  rw [State.checkClick, counted]
  split
  case isTrue hup => rw [if_pos (event_countClick.trans hup)]
  case isFalse => rfl

theorem clicks_checkUp : (s.checkUp time codeDown).clicks = s.clicks := by
  rw [State.checkUp]
  split
  · rfl
  · refine clicks_append fun e he => ?_
    obtain ⟨key, -, he⟩ := List.mem_flatMap.mp he
    rcases List.mem_cons.mp he with rfl | he
    · rfl
    · split at he
      · obtain rfl := List.mem_singleton.mp he
        rfl
      · cases he

theorem Agrees.keep (h : Agrees s t s.codeDown) (hup : s.upNew codeDown = 0) :
    Agrees (counted s time codeDown) (t.release time codeDown) (s.codeDown &&& codeDown) := by
  have hheld : s.codeDown &&& codeDown = s.codeDown := and_eq_left_of_upNew hup
  have hstate : s.checkUp time codeDown = s := if_pos hup
  have htracker : t.release time codeDown = t := if_pos (h.codeDown ▸ hup)
  have hcounted : counted s time codeDown = s := by
    rw [counted, hstate]
    split
    case isFalse => rfl
    case isTrue hevent =>
      rw [State.countClick]
      have hclicking := h.clicking
      have hpressing := h.pressing
      cases hpress : t.press with
      | none =>
          cases hrunning : t.running with
          | none =>
              rw [hpress] at hpressing
              rw [hpressing.1 hrunning] at hevent
              cases hevent
          | some b =>
              rw [hpress] at hpressing
              rw [hrunning] at hclicking
              obtain ⟨hcode, hne, -⟩ := hclicking
              rw [if_neg (by rw [hcode, (hpressing.2 b hrunning).2.1]; simp only [hne, ne_eq, not_true_eq_false,
                or_self, not_false_eq_true]), if_neg fun h => h.1 hup]
      | down combo pressed since =>
          rw [hpress] at hpressing
          rw [hpressing.1] at hevent
          cases hevent
      | long combo =>
          rw [hpress] at hpressing
          exact absurd hpressing.1 (not_inLongPress_of_eq hevent (by decide) (by decide))
  rw [hcounted, htracker, hheld]
  exact h

theorem checkUp_frame (s : State) (time : UInt32) (codeDown : Code) : (s.checkUp time codeDown).codeDown = s.codeDown ∧
    (s.checkUp time codeDown).codeReady = s.codeReady ∧ (s.checkUp time codeDown).codeClick = s.codeClick ∧
    (s.checkUp time codeDown).cntClick = s.cntClick ∧ (s.checkUp time codeDown).timeClick = s.timeClick := by
  rw [State.checkUp]
  split
  · exact ⟨rfl, rfl, rfl, rfl, rfl⟩
  · exact ⟨rfl, rfl, rfl, rfl, rfl⟩

theorem event_checkUp (time : UInt32) (hup : s.upNew codeDown ≠ 0) : (s.checkUp time codeDown).event =
    if s.InLongPress then (if codeDown &&& s.codeReady = 0 then .none else s.event)
    else if s.event = .down then .up
    else s.event := by
  rw [State.checkUp, if_neg hup]

theorem countClick_first (hclick : s.codeClick = 0) :
    s.countClick time codeDown = { s with codeClick := s.codeReady, cntClick := 0, timeClick := time } := by
  rw [State.countClick, if_pos (.inl hclick), if_neg (not_not.mpr hclick)]

theorem countClick_again (hclick : s.codeClick ≠ 0) (hsame : s.codeClick = s.codeReady)
    (hup : s.upNew codeDown ≠ 0) (hwhole : s.codeDown = s.codeClick) :
    s.countClick time codeDown = { s with cntClick := s.cntClick + 1, timeClick := time } := by
  rw [State.countClick, if_neg (not_or.mpr ⟨hclick, not_not.mpr hsame⟩),
    if_pos ⟨hup, (upNew_or s codeDown).trans hwhole⟩]

theorem countClick_other (hclick : s.codeClick ≠ 0) (hother : s.codeClick ≠ s.codeReady) :
    s.countClick time codeDown = { s.sendKeyEvent s.codeClick (clickPlus s.cntClick) with
      codeClick := s.codeReady, cntClick := 0, timeClick := time } := by
  rw [State.countClick, if_pos (.inr hother), if_pos hclick]

theorem Tracker.cycle_extend {c : Cycle} (hrunning : t.running = some b) (hfollows : Follows cfg b.last c)
    (hless : b.earlier.length < 4) :
    t.cycle c = { t with cycles := t.cycles ++ [c], running := some (b.extend c hfollows hless) } := by
  simp only [Tracker.cycle, hrunning, hfollows, hless, and_self, dif_pos]

theorem Tracker.cycle_other {c : Cycle} (hrunning : t.running = some b) (hnot : ¬ Follows cfg b.last c) :
    t.cycle c = { t.finish with cycles := t.cycles ++ [c], running := some (.single c) } := by
  simp only [Tracker.cycle, hrunning, hnot, false_and, dif_neg, not_false_eq_true]

theorem Tracker.cycle_first {c : Cycle} (hrunning : t.running = none) :
    t.cycle c = { t with cycles := t.cycles ++ [c], running := some (.single c) } := by
  simp only [Tracker.cycle, hrunning]

/-- The press in progress becomes a cycle, which is counted as one. -/
theorem Agrees.releaseDown (h : Agrees s t s.codeDown) {combo : Code} {pressed since : UInt32}
    (hpress : t.press = .down combo pressed since) (hup : s.upNew codeDown ≠ 0) :
    Agrees (counted s time codeDown) (t.release time codeDown) (s.codeDown &&& codeDown) := by
  have hpressing := h.pressing
  rw [hpress] at hpressing
  obtain ⟨hevent, hready, hheld, hne, -, hquick⟩ := hpressing
  have hrelease : t.release time codeDown = { t with press := .none }.cycle ⟨combo, pressed, time, t.longs⟩ := by
    rw [Tracker.release, if_neg (h.codeDown ▸ hup), hpress]
  -- some key of the combination is up
  have hgone : combo &&& ~~~(s.codeDown &&& codeDown) ≠ 0 := by
    rw [← hheld, and_not_and]
    exact hup
  have hclicking := h.clicking
  have hcodeDown := h.codeDown
  have hreported : (s.checkUp time codeDown).clicks = _ := clicks_checkUp.trans h.reported
  have hup' := event_checkUp time hup
  rw [if_neg (not_inLongPress_of_eq hevent (by decide) (by decide)), if_pos hevent] at hup'
  obtain ⟨hsame, hsameReady, hsameClick, hsameCnt, -⟩ := checkUp_frame s time codeDown
  have hupNew : (s.checkUp time codeDown).upNew codeDown ≠ 0 := by
    rw [State.upNew, hsame]
    exact hup
  rw [← hsame] at hheld hcodeDown
  rw [← hsameReady] at hready
  rw [counted, if_pos hup', hrelease]
  generalize s.checkUp time codeDown = u at *
  cases hrunning : t.running with
  | none =>
      rw [hrunning] at hclicking
      rw [countClick_first (hsameClick.trans hclicking), Tracker.cycle_first rfl]
      refine ⟨hcodeDown, hreported, ⟨hready, hne, rfl, rfl, rfl⟩, ?_, ?_⟩
      · intro hnone
        cases hnone
      · intro b hb
        obtain rfl := Option.some.inj hb
        exact ⟨hup', hready, hgone⟩
  | some b =>
      rw [hrunning] at hclicking
      obtain ⟨hcode, hcombo, hcnt, htime, hlongs⟩ := hclicking
      rw [← hsameClick] at hcode
      rw [← hsameCnt] at hcnt
      obtain ⟨hgap, hless⟩ := hquick b hrunning
      have hclick : u.codeClick ≠ 0 := hcode ▸ hcombo
      by_cases hequal : combo = b.last.combo
      · have hsameCode : u.codeClick = u.codeReady := by rw [hcode, hready, hequal]
        rw [countClick_again hclick hsameCode hupNew (by rw [hheld, hcode, hequal]),
          Tracker.cycle_extend rfl ⟨hequal, hlongs.symm, hgap⟩ hless]
        refine ⟨hcodeDown, hreported, ⟨hcode.trans hequal.symm, hne, ?_, rfl, rfl⟩, ?_, ?_⟩
        · change u.cntClick + 1 = UInt8.ofNat (b.earlier ++ [b.last]).length
          rw [hcnt, List.length_append, List.length_singleton, UInt8.ofNat_add]
          rfl
        · intro hnone
          cases hnone
        · intro c hc
          obtain rfl := Option.some.inj hc
          exact ⟨hup', hready, hgone⟩
      · have hother : u.codeClick ≠ u.codeReady := by
          rw [hcode, hready]
          exact fun heq => hequal heq.symm
        rw [countClick_other hclick hother, Tracker.cycle_other rfl fun hfollows => hequal hfollows.1]
        refine ⟨hcodeDown, ?_, ⟨hready, hne, rfl, rfl, rfl⟩, ?_, ?_⟩
        · refine (clicks_sendKeyEvent ..).trans ?_
          rw [hreported, hcode, hcnt, clickOf_clickPlus _ b.earlier_le]
          simp only [Tracker.finish, Option.toList_some, List.map_append, List.map_cons, List.map_nil]
          rfl
        · intro hnone
          cases hnone
        · intro c hc
          obtain rfl := Option.some.inj hc
          exact ⟨hup', hready, hgone⟩

theorem Agrees.releaseNone (h : Agrees s t s.codeDown) (hpress : t.press = .none) (hup : s.upNew codeDown ≠ 0) :
    Agrees (counted s time codeDown) (t.release time codeDown) (s.codeDown &&& codeDown) := by
  have hpressing := h.pressing
  rw [hpress] at hpressing
  obtain ⟨hnone, hsome⟩ := hpressing
  have hclicking := h.clicking
  have hcodeDown := h.codeDown
  have hreported : (s.checkUp time codeDown).clicks = _ := clicks_checkUp.trans h.reported
  have hrelease : t.release time codeDown = t := by
    rw [Tracker.release, if_neg (h.codeDown ▸ hup), hpress]
  have hevent := event_checkUp time hup
  obtain ⟨hsame, hsameReady, hsameClick, hsameCnt, hsameTime⟩ :=
    checkUp_frame s time codeDown
  rw [counted, hrelease]
  cases hrunning : t.running with
  | none =>
      have hidle := hnone hrunning
      rw [if_neg (not_inLongPress_of_eq hidle (by decide) (by decide)), if_neg (by rw [hidle]; decide), hidle] at hevent
      rw [if_neg (by rw [hevent]; decide)]
      rw [hrunning] at hclicking
      refine ⟨hsame.trans hcodeDown, hreported, ?_, ?_⟩
      · rw [hrunning]
        exact hsameClick.trans hclicking
      · rw [hpress]
        refine ⟨fun _ => hevent, fun b hb => ?_⟩
        rw [hrunning] at hb
        cases hb
  | some b =>
      obtain ⟨hwait, hready, hgone⟩ := hsome b hrunning
      rw [if_neg (not_inLongPress_of_eq hwait (by decide) (by decide)), if_neg (by rw [hwait]; decide), hwait] at hevent
      rw [hrunning] at hclicking
      obtain ⟨hcode, hcombo, hcnt, htime, hlongs⟩ := hclicking
      -- the keys still down are not the whole combination
      have hcount : (s.checkUp time codeDown).countClick time codeDown = s.checkUp time codeDown := by
        rw [State.countClick, if_neg, if_neg]
        · rw [upNew_or, hsame, hsameClick, hcode]
          rintro ⟨-, hwhole⟩
          rw [hwhole, BitVec.and_not_self] at hgone
          exact hgone rfl
        · rw [hsameClick, hsameReady, hcode, hready]
          simp only [hcombo, ne_eq, not_true_eq_false, or_self, not_false_eq_true]
      rw [if_pos hevent, hcount]
      refine ⟨hsame.trans hcodeDown, hreported, ?_, ?_⟩
      · rw [hrunning]
        exact ⟨hsameClick.trans hcode, hcombo, hsameCnt.trans hcnt, hsameTime.trans htime, hlongs⟩
      · rw [hpress]
        refine ⟨fun hnil => ?_, fun c hc => ?_⟩
        · rw [hrunning] at hnil
          cases hnil
        · rw [hrunning] at hc
          obtain rfl := Option.some.inj hc
          exact ⟨hevent, hsameReady.trans hready, and_not_mono hgone⟩

/-- Keys are released in a long press, which is over when all of its keys are. -/
theorem Agrees.releaseLong (h : Agrees s t s.codeDown) {combo : Code} (hpress : t.press = .long combo)
    (hup : s.upNew codeDown ≠ 0) :
    Agrees (counted s time codeDown) (t.release time codeDown) (s.codeDown &&& codeDown) := by
  have hpressing := h.pressing
  rw [hpress] at hpressing
  obtain ⟨hlong, hready, hrunning⟩ := hpressing
  have hclicking := h.clicking
  rw [hrunning] at hclicking
  have hcodeDown := h.codeDown
  have hreported : (s.checkUp time codeDown).clicks = _ := clicks_checkUp.trans h.reported
  have hrelease : t.release time codeDown = if codeDown &&& combo = 0 then { t with press := .none } else t := by
    rw [Tracker.release, if_neg (h.codeDown ▸ hup), hpress]
  have hevent := event_checkUp time hup
  rw [if_pos hlong, hready] at hevent
  obtain ⟨hsame, hsameReady, hsameClick, -, -⟩ := checkUp_frame s time codeDown
  rw [counted, hrelease]
  by_cases hall : codeDown &&& combo = 0
  · rw [if_pos hall] at hevent
    rw [if_neg (by rw [hevent]; decide), if_pos hall]
    refine ⟨hsame.trans hcodeDown, hreported, ?_, fun _ => hevent, fun b hb => ?_⟩
    · simp only [hrunning]
      exact hsameClick.trans hclicking
    · rw [show t.running = none from hrunning] at hb
      cases hb
  · rw [if_neg hall] at hevent
    have hnot : (s.checkUp time codeDown).event ≠ .up := by
      rw [hevent]
      rcases hlong with heq | heq <;> rw [heq] <;> decide
    rw [if_neg hnot, if_neg hall]
    refine ⟨hsame.trans hcodeDown, hreported, ?_, ?_⟩
    · rw [hrunning]
      exact hsameClick.trans hclicking
    · rw [hpress]
      refine ⟨?_, hsameReady.trans hready, hrunning⟩
      rw [State.InLongPress, hevent]
      exact hlong

theorem Agrees.release (h : Agrees s t s.codeDown) :
    Agrees (counted s time codeDown) (t.release time codeDown) (s.codeDown &&& codeDown) := by
  by_cases hup : s.upNew codeDown = 0
  · exact h.keep hup
  · cases hpress : t.press with
    | none => exact h.releaseNone hpress hup
    | down combo pressed since => exact h.releaseDown hpress hup
    | long combo => exact h.releaseLong hpress hup

/-! ### The end of a burst -/

/-- With nothing in progress, the running burst may go on. -/
def Tracker.Fresh (t : Tracker cfg) (time : UInt32) : Prop :=
  ∀ b, t.press = .none → t.running = some b →
    time - b.last.released < cfg.doubleclickThreshold ∧ b.earlier.length < 4

theorem Tracker.rest_of_press (hpress : t.press ≠ .none) : t.rest time = t := by
  rw [Tracker.rest]
  split
  · exact absurd ‹_› hpress
  · rfl

theorem Agrees.rest (h : Agrees s t held) :
    Agrees (if s.event = .up then s.finishClick cfg time else s) (t.rest time) held ∧ (t.rest time).Fresh time := by
  have hpressing := h.pressing
  have hclicking := h.clicking
  cases hpress : t.press with
  | down combo pressed since =>
      have hbusy : t.press ≠ .none := by
        rw [hpress]
        exact Press.noConfusion
      rw [hpress] at hpressing
      rw [if_neg (by rw [hpressing.1]; decide), Tracker.rest_of_press hbusy]
      exact ⟨h, fun _ hnone => absurd hnone hbusy⟩
  | long combo =>
      have hbusy : t.press ≠ .none := by
        rw [hpress]
        exact Press.noConfusion
      rw [hpress] at hpressing
      rw [if_neg (by rcases hpressing.1 with heq | heq <;> rw [heq] <;> decide), Tracker.rest_of_press hbusy]
      exact ⟨h, fun _ hnone => absurd hnone hbusy⟩
  | none =>
      rw [hpress] at hpressing
      obtain ⟨hnone, hsome⟩ := hpressing
      cases hrunning : t.running with
      | none =>
          have hrest : t.rest time = t := by simp only [Tracker.rest, hpress, hrunning]
          rw [if_neg (by rw [hnone hrunning]; decide), hrest]
          refine ⟨h, fun b _ hb => ?_⟩
          rw [hrunning] at hb
          cases hb
      | some b =>
          obtain ⟨hwait, -, -⟩ := hsome b hrunning
          rw [hrunning] at hclicking
          obtain ⟨hcode, -, hcnt, htime, -⟩ := hclicking
          have hrest : t.rest time = if cfg.doubleclickThreshold ≤ time - b.last.released ∨ b.earlier.length = 4
              then t.finish else t := by simp only [Tracker.rest, hpress, hrunning]
          have hiff : (cfg.doubleclickThreshold ≤ time - s.timeClick ∨ maxKeyClickCount ≤ s.cntClick) ↔
              (cfg.doubleclickThreshold ≤ time - b.last.released ∨ b.earlier.length = 4) := by
            rw [htime, hcnt, maxKeyClickCount_le b.earlier_le]
          rw [if_pos hwait, hrest, State.finishClick]
          by_cases hover : cfg.doubleclickThreshold ≤ time - b.last.released ∨ b.earlier.length = 4
          · rw [if_pos hover, if_pos (hiff.mpr hover)]
            refine ⟨⟨h.codeDown, ?_, rfl, ?_⟩, fun b _ hb => by cases hb⟩
            · refine (clicks_sendKeyEvent ..).trans ?_
              rw [h.reported, hcode, hcnt, clickOf_clickPlus _ b.earlier_le]
              simp only [Tracker.finish, hrunning, Option.toList_some, List.map_append, List.map_cons, List.map_nil]
              rfl
            · simp only [Tracker.finish, hpress]
              exact ⟨fun _ => rfl, fun b hb => by cases hb⟩
          · rw [if_neg hover, if_neg fun h => hover (hiff.mp h)]
            obtain ⟨hyoung, hroom⟩ := not_or.mp hover
            refine ⟨h, fun c _ hc => ?_⟩
            rw [hrunning] at hc
            obtain rfl := Option.some.inj hc
            exact ⟨UInt32.not_le.mp hyoung, Nat.lt_of_le_of_ne b.earlier_le hroom⟩

/-! ### A press -/

theorem clicks_checkDown : (s.checkDown time codeDown).clicks = s.clicks := by
  rw [State.checkDown]
  split
  · rfl
  · refine clicks_append fun e he => ?_
    obtain ⟨key, -, he⟩ := List.mem_flatMap.mp he
    rcases List.mem_cons.mp he with rfl | he
    · rfl
    · obtain rfl := List.mem_singleton.mp he
      split <;> rfl

theorem checkDown_frame (s : State) (time : UInt32) (codeDown : Code) :
    (s.checkDown time codeDown).codeDown = codeDown ∧
    (s.checkDown time codeDown).codeClick = s.codeClick ∧ (s.checkDown time codeDown).cntClick = s.cntClick ∧
    (s.checkDown time codeDown).timeClick = s.timeClick := by
  rw [State.checkDown]
  split <;> exact ⟨rfl, rfl, rfl, rfl⟩

theorem Tracker.pressKeys_frame (t : Tracker cfg) (time : UInt32) (codeDown : Code) :
    (t.pressKeys time codeDown).keysDown = codeDown ∧
    (t.pressKeys time codeDown).finished = t.finished ∧ (t.pressKeys time codeDown).running = t.running ∧
    (t.pressKeys time codeDown).longs = t.longs := by
  rw [Tracker.pressKeys]
  split
  · exact ⟨rfl, rfl, rfl, rfl⟩
  · split <;> exact ⟨rfl, rfl, rfl, rfl⟩

theorem Clicking.of_same {s' : State} {t' : Tracker cfg} {running : Option (Burst cfg)} (h : Clicking s t running)
    (hcode : s'.codeClick = s.codeClick) (hcnt : s'.cntClick = s.cntClick) (htime : s'.timeClick = s.timeClick)
    (hlongs : t'.longs = t.longs) : Clicking s' t' running := by
  cases running with
  | none => exact hcode.trans h
  | some b => exact ⟨hcode.trans h.1, h.2.1, hcnt.trans h.2.2.1, htime.trans h.2.2.2.1, h.2.2.2.2.trans hlongs.symm⟩

theorem Agrees.press (h : Agrees s t (s.codeDown &&& codeDown)) (hfresh : t.Fresh time) :
    Agrees (s.checkDown time codeDown) (t.pressKeys time codeDown) codeDown := by
  obtain ⟨hkeys, hfinished, hrunning, hlongs⟩ := Tracker.pressKeys_frame t time codeDown
  obtain ⟨hcodeDown, hcode, hcnt, htime⟩ := checkDown_frame s time codeDown
  refine ⟨hcodeDown.trans hkeys.symm, ?_, ?_, ?_⟩
  · rw [clicks_checkDown, hfinished]
    exact h.reported
  · rw [hrunning]
    exact h.clicking.of_same hcode hcnt htime hlongs
  · have hpressing := h.pressing
    by_cases hdown : s.downNew codeDown = 0
    · have hheld : s.codeDown &&& codeDown = codeDown := and_eq_right_of_downNew hdown
      rw [State.checkDown, if_pos hdown, Tracker.pressKeys, if_pos (h.codeDown ▸ hdown)]
      rw [hheld] at hpressing
      cases hpress : t.press with
      | none => rw [hpress] at hpressing; exact hpressing
      | down combo pressed since => rw [hpress] at hpressing; exact hpressing
      | long combo => rw [hpress] at hpressing; exact hpressing
    · have hnew : ¬ codeDown &&& ~~~t.keysDown = 0 := h.codeDown ▸ hdown
      rw [State.checkDown, if_neg hdown]
      cases hpress : t.press with
      | none =>
          have htracker : t.pressKeys time codeDown =
              { t with keysDown := codeDown, press := .down codeDown time time } := by
            rw [Tracker.pressKeys, if_neg hnew, hpress]
          rw [hpress] at hpressing
          rw [htracker]
          have hidle : s.event = .none ∨ s.event = .up := by
            cases hburst : t.running with
            | none => exact .inl (hpressing.1 hburst)
            | some b => exact .inr (hpressing.2 b hburst).1
          refine ⟨if_pos hidle, if_pos ?_, rfl, ne_zero_of_downNew hdown, rfl, fun b hb => hfresh b hpress hb⟩
          exact hidle.imp_right .inr
      | down combo pressed since =>
          rw [hpress] at hpressing
          obtain ⟨hevent, -, -, -, -, hquick⟩ := hpressing
          have htracker : t.pressKeys time codeDown =
              { t with keysDown := codeDown, press := .down codeDown pressed time } := by
            rw [Tracker.pressKeys, if_neg hnew, hpress]
          rw [htracker]
          refine ⟨?_, if_pos (.inr (.inl hevent)), rfl, ne_zero_of_downNew hdown, rfl, hquick⟩
          simp only [hevent, reduceCtorEq, or_self, if_false]
      | long combo =>
          rw [hpress] at hpressing
          obtain ⟨hlong, hready, hburst⟩ := hpressing
          have htracker : t.pressKeys time codeDown = { t with keysDown := codeDown } := by
            rw [Tracker.pressKeys, if_neg hnew, hpress]
          rw [htracker]
          change Pressing _ _ _ t.press
          rw [hpress]
          rcases hlong with hevent | hevent
          · refine ⟨.inl ?_, ?_, hburst⟩
            · simp only [hevent, reduceCtorEq, or_self, if_false]
            · simp only [hevent, reduceCtorEq, or_self, if_false, hready]
          · refine ⟨.inr ?_, ?_, hburst⟩
            · simp only [hevent, reduceCtorEq, or_self, if_false]
            · simp only [hevent, reduceCtorEq, or_self, if_false, hready]

/-! ### A long press -/

theorem checkLonglongpress_frame (cfg : Config) (s : State) (time : UInt32) :
    (s.checkLonglongpress cfg time).clicks = s.clicks ∧
    (s.checkLonglongpress cfg time).codeDown = s.codeDown ∧ (s.checkLonglongpress cfg time).codeReady = s.codeReady ∧
    (s.checkLonglongpress cfg time).codeClick = s.codeClick ∧
    (s.InLongPress → (s.checkLonglongpress cfg time).InLongPress) := by
  have hnone : ∀ (u : State) (event : KeyEvent), clickOf (s.codeReady, event) = none →
      (u.sendKeyEvent s.codeReady event).clicks = u.clicks := by
    intro u event hevent
    rw [clicks_sendKeyEvent, hevent, Option.toList_none, List.append_nil]
  simp only [State.checkLonglongpress]
  split
  · refine ⟨(hnone _ _ rfl).trans ?_, ?_, ?_, ?_, fun _ => .inr rfl⟩
    · split
      · exact hnone _ _ rfl
      · rfl
    all_goals split <;> rfl
  · split
    · exact ⟨hnone _ _ rfl, rfl, rfl, rfl, id⟩
    · exact ⟨rfl, rfl, rfl, rfl, id⟩

theorem Agrees.hold (h : Agrees s t s.codeDown)
    (hquiet : ∀ combo pressed since, t.press = .down combo pressed since →
      cfg.longpressThreshold ≤ time - since → t.running = none) :
    Agrees (s.checkLongpress cfg time) (t.hold time) (s.checkLongpress cfg time).codeDown := by
  have hpressing := h.pressing
  have hclicking := h.clicking
  cases hpress : t.press with
  | none =>
      rw [hpress] at hpressing
      have hidle : s.event = .none ∨ s.event = .up := by
        cases hburst : t.running with
        | none => exact .inl (hpressing.1 hburst)
        | some b => exact .inr (hpressing.2 b hburst).1
      have hstate : s.checkLongpress cfg time = s := by
        rcases hidle with hevent | hevent
        · simp only [State.checkLongpress, State.InLongPress, hevent, reduceCtorEq, or_self, if_false, ite_self]
        · simp only [State.checkLongpress, State.InLongPress, hevent, reduceCtorEq, or_self, if_false, ite_self]
      have htracker : t.hold time = t := by rw [Tracker.hold, hpress]
      rw [hstate, htracker]
      exact h
  | down combo pressed since =>
      rw [hpress] at hpressing
      obtain ⟨hevent, hready, hheld, hne, hsince, hquick⟩ := hpressing
      have hall : s.codeDown &&& s.codeReady = s.codeReady := by rw [hready, hheld, BitVec.and_self]
      have htracker : t.hold time = if cfg.longpressThreshold ≤ time - since then
          { t.finish with press := .long combo, longs := t.longs + 1 } else t := by
        rw [Tracker.hold, hpress]
      rw [State.checkLongpress, if_pos hall, if_pos hevent, htracker, hsince]
      by_cases hlong : cfg.longpressThreshold ≤ time - since
      · have hrunning := hquiet combo pressed since hpress hlong
        rw [if_pos hlong, if_pos hlong]
        rw [hrunning] at hclicking
        refine ⟨h.codeDown, ?_, hclicking, .inl rfl, hready, rfl⟩
        refine (clicks_sendKeyEvent ..).trans ((List.append_nil _).trans ?_)
        simp only [Tracker.finish, hrunning, Option.toList_none, List.append_nil]
        exact h.reported
      · rw [if_neg hlong, if_neg hlong]
        exact h
  | long combo =>
      rw [hpress] at hpressing
      obtain ⟨hlong, hready, hrunning⟩ := hpressing
      have htracker : t.hold time = t := by rw [Tracker.hold, hpress]
      have hnot : s.event ≠ .down := by rcases hlong with heq | heq <;> rw [heq] <;> decide
      rw [State.checkLongpress, if_neg hnot, if_pos hlong, htracker]
      split
      · obtain ⟨hclicks, hdown, hready', hclick, hstill⟩ := checkLonglongpress_frame cfg s time
        refine ⟨hdown.trans h.codeDown, hclicks.trans h.reported, ?_, ?_⟩
        · rw [hrunning] at hclicking ⊢
          exact hclick.trans hclicking
        · rw [hpress]
          exact ⟨hstill hlong, hready'.trans hready, hrunning⟩
      · exact h

theorem Tracker.rest_frame : (t.rest time).press = t.press ∧ (t.rest time).keysDown = t.keysDown := by
  rw [Tracker.rest]
  split
  · split <;> exact ⟨rfl, rfl⟩
  · exact ⟨rfl, rfl⟩

theorem Tracker.press_cycle {c : Cycle} : (t.cycle c).press = t.press := by
  rw [Tracker.cycle]
  split
  · rfl
  · split <;> rfl

/-- A press that was still in progress after the releases has seen none. -/
theorem Tracker.release_of_down {combo : Code} {pressed since : UInt32}
    (hpress : (t.release time codeDown).press = .down combo pressed since) :
    ~~~codeDown &&& t.keysDown = 0 ∧ t.release time codeDown = t := by
  by_cases hup : ~~~codeDown &&& t.keysDown = 0
  · exact ⟨hup, if_pos hup⟩
  · rw [Tracker.release, if_neg hup] at hpress
    split at hpress
    · rename_i hnone
      rw [hnone] at hpress
      cases hpress
    · rw [Tracker.press_cycle] at hpress
      cases hpress
    · rename_i hheld
      split at hpress
      · cases hpress
      · rw [hheld] at hpress
        cases hpress

theorem Tracker.pressKeys_of_since {combo : Code} {pressed since : UInt32}
    (hpress : (t.pressKeys time codeDown).press = .down combo pressed since) (hsince : since ≠ time) :
    codeDown &&& ~~~t.keysDown = 0 ∧ t.press = .down combo pressed since := by
  by_cases hdown : codeDown &&& ~~~t.keysDown = 0
  · rw [Tracker.pressKeys, if_pos hdown] at hpress
    exact ⟨hdown, hpress⟩
  · rw [Tracker.pressKeys, if_neg hdown] at hpress
    split at hpress
    · exact absurd (Press.down.inj hpress).2.2.symm hsince
    · exact absurd (Press.down.inj hpress).2.2.symm hsince
    · rename_i hheld
      rw [show t.press = _ from hpress] at hheld
      cases hheld

/-- A long press is one of keys of which none was pressed or released just now. -/
theorem Agrees.quiet (h : Agrees s t s.codeDown) (hcond : NoLongPressInBurst cfg s ⟨time, codeDown⟩)
    {combo : Code} {pressed since : UInt32}
    (hpress : (((t.release time codeDown).rest time).pressKeys time codeDown).press = .down combo pressed since)
    (hlong : cfg.longpressThreshold ≤ time - since) :
    (((t.release time codeDown).rest time).pressKeys time codeDown).running = none := by
  have hsince : since ≠ time := by
    rintro rfl
    rw [UInt32.sub_self] at hlong
    exact UInt32.not_le.mpr cfg.longpress_pos hlong
  obtain ⟨hdown, hpress₂⟩ := Tracker.pressKeys_of_since hpress hsince
  rw [Tracker.rest_frame.2] at hdown
  rw [Tracker.rest_frame.1] at hpress₂
  have hrest : (t.release time codeDown).rest time = _ :=
    Tracker.rest_of_press (by rw [hpress₂]; exact Press.noConfusion)
  obtain ⟨hup, hrelease⟩ := Tracker.release_of_down hpress₂
  rw [hrest, hrelease, (Tracker.pressKeys_frame ..).2.2.1]
  rw [hrelease] at hdown hpress₂
  have hpressing := h.pressing
  rw [hpress₂] at hpressing
  obtain ⟨hevent, -, -, -, hchanged, -⟩ := hpressing
  have hsame : codeDown = s.codeDown := by
    rw [h.codeDown, ← and_eq_left_of_upNew hup, and_eq_right_of_downNew hdown]
  have hclicking := h.clicking
  cases hrunning : t.running with
  | none => rfl
  | some b =>
      rw [hrunning] at hclicking
      obtain ⟨hcode, hcombo, -⟩ := hclicking
      exact absurd ⟨hevent, hsame, hchanged.symm ▸ hlong, hcode.symm ▸ hcombo⟩ hcond

theorem codeDown_clicked (cfg : Config) (s : State) (time : UInt32) (codeDown : Code) :
    ((s.checkUp time codeDown).checkClick cfg time codeDown).codeDown = s.codeDown := by
  have hcount : ∀ u : State, (u.countClick time codeDown).codeDown = u.codeDown := by
    intro u
    rw [State.countClick]
    split
    · split <;> rfl
    · split <;> rfl
  rw [← (checkUp_frame s time codeDown).1, State.checkClick]
  split
  · rw [State.finishClick]
    split
    · exact hcount _
    · exact hcount _
  · rfl

theorem Agrees.step (h : Agrees s t s.codeDown) {sample : Sample} (hcond : NoLongPressInBurst cfg s sample)
    {s' : State} (hstep : KeyClick.step cfg s sample = some s') : Agrees s' (t.observe sample) s'.codeDown := by
  obtain rfl := Option.some.inj hstep
  have hrelease : Agrees (counted s sample.time sample.codeDown) _ _ := h.release
  obtain ⟨hrest, hfresh⟩ := hrelease.rest
  rw [← checkClick_eq, ← codeDown_clicked cfg s sample.time sample.codeDown] at hrest
  have hpress := hrest.press hfresh
  have hdown := (checkDown_frame ((s.checkUp sample.time sample.codeDown).checkClick cfg sample.time sample.codeDown)
    sample.time sample.codeDown).1
  refine Agrees.hold ?_ fun combo pressed since => h.quiet hcond
  rw [hdown]
  exact hpress

end Step

/-! ### Every run -/

theorem Agrees.run {s s' : State} {t : Tracker cfg} {samples : List Sample} (h : Agrees s t s.codeDown)
    (halong : Along (KeyClick.step cfg) (NoLongPressInBurst cfg) s samples)
    (hrun : Best1307.run (KeyClick.step cfg) s samples = some s') :
    Agrees s' (samples.foldl Tracker.observe t) s'.codeDown := by
  induction samples generalizing s t with
  | nil =>
      obtain rfl := Option.some.inj hrun
      exact h
  | cons sample samples ih =>
      obtain ⟨s₁, hs₁, hrest⟩ := (run_cons_eq_some _).mp hrun
      exact ih (h.step halong.1 hs₁) (halong.2 s₁ hs₁) hrest

/-- Every cycle is in one burst, in order. -/
def Tracker.Grouped (t : Tracker cfg) : Prop :=
  (t.finished ++ t.running.toList).flatMap Burst.cycles = t.cycles

theorem Tracker.Grouped.finish {t : Tracker cfg} (h : t.Grouped) : t.finish.Grouped := by
  rw [Grouped, Tracker.finish, Option.toList_none, List.append_nil]
  exact h

theorem Tracker.Grouped.cycle {t : Tracker cfg} (h : t.Grouped) (c : Cycle) : (t.cycle c).Grouped := by
  rw [Grouped] at h
  cases hrunning : t.running with
  | none =>
      rw [hrunning, Option.toList_none, List.append_nil] at h
      rw [cycle_first hrunning, Grouped, Option.toList_some, List.flatMap_append, h]
      rfl
  | some b =>
      rw [hrunning, Option.toList_some, List.flatMap_append] at h
      by_cases hfollows : Follows cfg b.last c ∧ b.earlier.length < 4
      · rw [cycle_extend hrunning hfollows.1 hfollows.2, Grouped, Option.toList_some, List.flatMap_append, ← h]
        simp only [Burst.cycles, Burst.extend, List.flatMap_cons, List.flatMap_nil, List.append_nil, List.append_assoc]
      · have hcycle : t.cycle c = { t.finish with cycles := t.cycles ++ [c], running := some (.single c) } := by
          simp only [Tracker.cycle, hrunning, hfollows, dif_neg, not_false_eq_true]
        rw [hcycle, Grouped, Option.toList_some, List.flatMap_append, Tracker.finish, hrunning, Option.toList_some,
          List.flatMap_append, h]
        rfl

theorem Tracker.Grouped.observe {t : Tracker cfg} (h : t.Grouped) (sample : Sample) : (t.observe sample).Grouped := by
  have hrelease : ∀ {t : Tracker cfg}, t.Grouped → (t.release sample.time sample.codeDown).Grouped := by
    intro t h
    rw [Tracker.release]
    split
    · exact h
    · split
      · exact h
      · exact Grouped.cycle (t := { t with press := .none }) h _
      · split
        · exact h
        · exact h
  have hrest : ∀ {t : Tracker cfg}, t.Grouped → (t.rest sample.time).Grouped := by
    intro t h
    rw [Tracker.rest]
    split
    · split
      · exact h.finish
      · exact h
    · exact h
  have hpress : ∀ {t : Tracker cfg}, t.Grouped → (t.pressKeys sample.time sample.codeDown).Grouped := by
    intro t h
    rw [Tracker.pressKeys]
    split
    · exact h
    · split <;> exact h
  have hhold : ∀ {t : Tracker cfg}, t.Grouped → (t.hold sample.time).Grouped := by
    intro t h
    rw [Tracker.hold]
    split
    · split
      · exact h.finish
      · exact h
    · exact h
  exact hhold (hpress (hrest (hrelease h)))

theorem Tracker.grouped_foldl {t : Tracker cfg} (h : t.Grouped) (samples : List Sample) :
    (samples.foldl Tracker.observe t).Grouped := by
  induction samples generalizing t with
  | nil => exact h
  | cons sample samples ih => exact ih (h.observe sample)

/-- A report of `CLICK+n` is about `n+1` cycles of its keys, each soon enough after the one before and with no
long press in between. -/
theorem Burst.report_spec (b : Burst cfg) : b.cycles.length = b.report.2 + 1 ∧ b.cycles.IsChain (Follows cfg) ∧
    ∀ c ∈ b.cycles, c.combo = b.report.1 ∧ c.longs = b.last.longs := by
  refine ⟨by rw [cycles, List.length_append, report, List.length_singleton], b.consecutive, ?_⟩
  have hall : ∀ (earlier : List Cycle) (last : Cycle), (earlier ++ [last]).IsChain (Follows cfg) →
      ∀ c ∈ earlier ++ [last], c.combo = last.combo ∧ c.longs = last.longs := by
    intro earlier last hchain
    induction earlier with
    | nil =>
        intro c hc
        obtain rfl := List.mem_singleton.mp hc
        exact ⟨rfl, rfl⟩
    | cons d earlier ih =>
        rw [List.cons_append, List.isChain_cons] at hchain
        intro c hc
        rcases List.mem_cons.mp hc with rfl | hc
        · -- the next cycle follows it and has the keys of the last one
          obtain ⟨next, hnext⟩ : ∃ next, (earlier ++ [last]).head? = some next := by
            cases earlier with
            | nil => exact ⟨last, rfl⟩
            | cons e earlier => exact ⟨e, rfl⟩
          have hfollows := hchain.1 next hnext
          obtain ⟨hcombo, hlongs⟩ := ih hchain.2 next (List.mem_of_mem_head? hnext)
          exact ⟨hfollows.1.symm.trans hcombo, hfollows.2.1.symm.trans hlongs⟩
        · exact ih hchain.2 c hc
  exact hall b.earlier b.last b.consecutive

/-- As long as no long press comes while clicks are counted, the clicks reported are the bursts that are
finished, one report for each, and every press and release cycle is in one burst. -/
theorem clicks_are_bursts {samples : List Sample} {s : State}
    (halong : Along (step cfg) (NoLongPressInBurst cfg) .opened samples)
    (hrun : run (step cfg) .opened samples = some s) :
    s.clicks = ((samples.foldl Tracker.observe (.start cfg)).finished).map Burst.report ∧
      (samples.foldl Tracker.observe (.start cfg)).Grouped ∧
      ∀ b ∈ (samples.foldl Tracker.observe (.start cfg)).finished, b.cycles.length = b.report.2 + 1 ∧
        b.cycles.IsChain (Follows cfg) ∧ ∀ c ∈ b.cycles, c.combo = b.report.1 ∧ c.longs = b.last.longs :=
  ⟨((agrees_opened cfg).run halong hrun).reported,
    Tracker.grouped_foldl (show (Tracker.start cfg).Grouped from rfl) samples, fun b _ => b.report_spec⟩

theorem clicks_are_bursts_double :
    let samples : List Sample := [⟨640, 1⟩, ⟨1280, 0⟩, ⟨1920, 1⟩, ⟨2560, 0⟩, ⟨9600, 0⟩]
    ∃ s, run (step defaultConfig) .opened samples = some s ∧
      s.clicks = ((samples.foldl Tracker.observe (.start defaultConfig)).finished).map Burst.report ∧
      (samples.foldl Tracker.observe (.start defaultConfig)).Grouped ∧
      ∀ b ∈ (samples.foldl Tracker.observe (.start defaultConfig)).finished, b.cycles.length = b.report.2 + 1 ∧
        b.cycles.IsChain (Follows defaultConfig) ∧
        ∀ c ∈ b.cycles, c.combo = b.report.1 ∧ c.longs = b.last.longs :=
  ⟨_, rfl, clicks_are_bursts (by decide +kernel) rfl⟩

/-- A click, a long press of the same key at once, and a click after it. -/
def clickAroundLongPress : List Sample :=
  [⟨640, 1⟩, ⟨1280, 0⟩, ⟨1920, 1⟩, ⟨26560, 1⟩, ⟨27200, 0⟩, ⟨64000, 1⟩, ⟨64640, 0⟩, ⟨71680, 0⟩]

/-- The click before the long press is added to the one after it. -/
theorem clickAroundLongPress_double :
    ∃ s, run (step defaultConfig) .opened clickAroundLongPress = some s ∧ s.clicks = [(1, 1)] ∧
      ((clickAroundLongPress.foldl Tracker.observe (.start defaultConfig)).finished).map Burst.report =
        [(1, 0), (1, 0)] :=
  ⟨_, rfl, by decide +kernel⟩

end Best1307.KeyClick
