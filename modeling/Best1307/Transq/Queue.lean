import Mathlib.Logic.Function.Basic
import Best1307.Lib.Run
import Best1307.Lib.SlotRing

/-!
# The inter-core message queue

One direction of the queue: the sending core writes an address and a length to a slot of its block and
raises the slot's remote interrupt, the receiving core reads the slot and clears the interrupt, which raises
the local interrupt of the slot back on the sending core. Every priority has its own range of slots.

A step is one access to a register that both cores work on, with what the core reads or decides around it.
So `hal_transq_rx_next` is three steps, the local interrupt handler is three, and a transmission, which runs
under the interrupt lock and becomes visible with `RMT_INTSET`, is one. An interrupt of the receiving core
that is pending and enabled is taken before that core's next step. The receive calls of one priority do not
overlap each other, and where the receiving core reads `RMT_INTMASK`, changes it and writes it back, that is
one step: no interrupt that masks the other priority comes in between.
-/

namespace Best1307.Transq

open SlotRing

inductive HalTransqPri
  | normal | high
  deriving DecidableEq, Repr

inductive HalTransqRet
  | ok | badTxNum | badRxNum | badMode | rxEmpty | txFull
  deriving DecidableEq, Repr

def transqSlotNum : Nat := 32

structure Msg where
  addr : BitVec 32
  len : BitVec 32
  deriving DecidableEq, Repr

structure HalTransqCfg where
  txNum : HalTransqPri → Nat
  rxNum : HalTransqPri → Nat
  /-- whether there is an `rx_handler` -/
  rxHandler : Bool
  /-- whether there is a `tx_handler` -/
  txHandler : Bool

/-! ### Registers of the sending core's block -/

structure Regs where
  slots : Nat → Msg
  rmtRis : BitVec 32
  rmtIntmask : BitVec 32
  ldoneRis : BitVec 32
  ldoneIntmask : BitVec 32
  lerrRis : BitVec 32
  lerrIntmask : BitVec 32

/-- `1 << slot`, which is 0 on the target where there is no such slot. -/
def bit (slot : Nat) : BitVec 32 := BitVec.twoPow 32 slot

namespace Regs

def rmtMis (r : Regs) : BitVec 32 := r.rmtRis &&& r.rmtIntmask

def ldoneMis (r : Regs) : BitVec 32 := r.ldoneRis &&& r.ldoneIntmask

def lerrMis (r : Regs) : BitVec 32 := r.lerrRis &&& r.lerrIntmask

def writeSlot (r : Regs) (slot : Nat) (msg : Msg) : Regs := { r with slots := Function.update r.slots slot msg }

/-- A write to `RMT_INTSET`: a slot that is still active is an error. -/
def rmtIntset (r : Regs) (bits : BitVec 32) : Regs :=
  { r with rmtRis := r.rmtRis ||| bits, lerrRis := r.lerrRis ||| (r.rmtRis &&& bits) }

/-- A write to `RMT_INTCLR`: the slots are done. -/
def rmtIntclr (r : Regs) (bits : BitVec 32) : Regs :=
  { r with rmtRis := r.rmtRis &&& ~~~bits, ldoneRis := r.ldoneRis ||| (r.rmtRis &&& bits) }

def ldoneIntclr (r : Regs) (bits : BitVec 32) : Regs := { r with ldoneRis := r.ldoneRis &&& ~~~bits }

end Regs

/-! ### Slots of a priority -/

def constructMask (lsb width : Nat) : BitVec 32 :=
  if 32 ≤ lsb ∨ width = 0 then 0
  else (List.range' lsb width).foldl (fun result i => result ||| bit i) 0

/-- The slot after `slot` among the `num` slots of a priority: high priority has the last slots of the
block, normal priority the first ones. -/
def nextSlot (num : Nat) (pri : HalTransqPri) (slot : Nat) : Nat :=
  let slot := slot + 1
  match pri with
  | .high => if transqSlotNum ≤ slot then transqSlotNum - num else slot
  | .normal => if num ≤ slot then 0 else slot

def getNextRxSlot (cfg : HalTransqCfg) (pri : HalTransqPri) (slot : Nat) : Nat :=
  nextSlot (cfg.rxNum pri) pri slot

def getNextTxSlot (cfg : HalTransqCfg) (pri : HalTransqPri) (slot : Nat) : Nat :=
  nextSlot (cfg.txNum pri) pri slot

/-- The first slot of a priority that has `num` slots. -/
def firstSlot (num : Nat) : HalTransqPri → Nat
  | .high => transqSlotNum - num
  | .normal => 0

def rxIrqMask (cfg : HalTransqCfg) (pri : HalTransqPri) : BitVec 32 :=
  constructMask (firstSlot (cfg.rxNum pri) pri) (cfg.rxNum pri)

def txIrqMask (cfg : HalTransqCfg) (pri : HalTransqPri) : BitVec 32 :=
  constructMask (firstSlot (cfg.txNum pri) pri) (cfg.txNum pri)

/-! ### The state of both cores -/

/-- The sending core's variables of one priority, and what it has sent, how many transmissions it has seen
done and what its `tx_handler` was called with. -/
structure TxLane where
  nextTxSlot : Nat
  activeTxSlot : Nat
  txSlotFull : Bool
  sent : List Msg
  done : Nat
  called : List Msg

/-- Where `hal_transq_rx_next` is: not called, with the current interrupt cleared, where it matters whether
the core took interrupts then, or with the next slot stored. -/
inductive RxCall
  | idle
  | cleared (held : Bool)
  | advanced
  deriving DecidableEq, Repr

/-- The receiving core's variable of one priority, its call of `hal_transq_rx_next`, and what it has read
and cleared. -/
structure RxLane where
  nextRxSlot : Nat
  call : RxCall
  consumed : List Msg

/-- Where the local interrupt handler is: not running, with `LDONE_MIS` read, or behind `int_unlock`. -/
inductive LocalIrq
  | idle
  | read (status : BitVec 32)
  | unlocked (pri : HalTransqPri) (slot : Nat)
  deriving DecidableEq, Repr

structure State where
  txCfg : HalTransqCfg
  rxCfg : HalTransqCfg
  regs : Regs
  tx : HalTransqPri → TxLane
  rx : HalTransqPri → RxLane
  irq : LocalIrq
  /-- the receiving core takes no interrupts: they are locked, or one is being served -/
  rxHeld : Bool
  /-- an assertion has failed -/
  failed : Bool

namespace State

def setTx (s : State) (pri : HalTransqPri) (lane : TxLane) : State :=
  { s with tx := Function.update s.tx pri lane }

def setRx (s : State) (pri : HalTransqPri) (lane : RxLane) : State :=
  { s with rx := Function.update s.rx pri lane }

theorem setTx_tx_self (s : State) (pri : HalTransqPri) (lane : TxLane) : (s.setTx pri lane).tx pri = lane :=
  Function.update_self ..

theorem setTx_tx_of_ne (s : State) {pri q : HalTransqPri} (lane : TxLane) (h : q ≠ pri) :
    (s.setTx pri lane).tx q = s.tx q := Function.update_of_ne h ..

theorem setRx_rx_self (s : State) (pri : HalTransqPri) (lane : RxLane) : (s.setRx pri lane).rx pri = lane :=
  Function.update_self ..

theorem setRx_rx_of_ne (s : State) {pri q : HalTransqPri} (lane : RxLane) (h : q ≠ pri) :
    (s.setRx pri lane).rx q = s.rx q := Function.update_of_ne h ..

def fail (s : State) : State := { s with failed := true }

end State

/-! ### Opening -/

/-- The checks of `hal_transq_update_num`. -/
def checkNum (cfg : HalTransqCfg) : HalTransqRet :=
  if transqSlotNum < cfg.txNum .normal + cfg.txNum .high then .badTxNum
  else if transqSlotNum < cfg.rxNum .normal + cfg.rxNum .high then .badRxNum
  else .ok

def openTx (cfg : HalTransqCfg) (pri : HalTransqPri) : TxLane where
  nextTxSlot := if cfg.txNum pri = 0 then transqSlotNum else firstSlot (cfg.txNum pri) pri
  activeTxSlot := transqSlotNum
  txSlotFull := false
  sent := []
  done := 0
  called := []

def openRx (cfg : HalTransqCfg) (pri : HalTransqPri) : RxLane where
  nextRxSlot := if cfg.rxNum pri = 0 then transqSlotNum else firstSlot (cfg.rxNum pri) pri
  call := .idle
  consumed := []

/-- `hal_transq_open` on both cores; the slots hold whatever they held. -/
def halTransqOpen (txCfg rxCfg : HalTransqCfg) (slots : Nat → Msg) : Option State :=
  if checkNum txCfg = .ok ∧ checkNum rxCfg = .ok then
    let txMask := txIrqMask txCfg .normal ||| txIrqMask txCfg .high
    some {
      txCfg := txCfg, rxCfg := rxCfg
      regs := {
        slots := slots, rmtRis := 0, rmtIntmask := txMask, ldoneRis := 0
        ldoneIntmask := if txCfg.txHandler then txMask else 0
        lerrRis := 0, lerrIntmask := txMask }
      tx := openTx txCfg, rx := openRx rxCfg, irq := .idle, rxHeld := false, failed := false }
  else none

/-! ### The sending core -/

/-- The variables of a priority when `msg` goes to its next slot, which is not in use. -/
def TxLane.transmit (cfg : HalTransqCfg) (pri : HalTransqPri) (lane : TxLane) (msg : Msg) : TxLane :=
  let slot := lane.nextTxSlot
  -- `Update active_tx_slot if this is the only tx in progress`
  let active := if transqSlotNum ≤ lane.activeTxSlot then slot else lane.activeTxSlot
  let next := getNextTxSlot cfg pri slot
  { lane with nextTxSlot := next, activeTxSlot := active, txSlotFull := next = active
              sent := lane.sent ++ [msg] }

def transmit (s : State) (pri : HalTransqPri) (msg : Msg) : State :=
  let slot := (s.tx pri).nextTxSlot
  { s with regs := (s.regs.writeSlot slot msg).rmtIntset (bit slot) }.setTx pri
    ((s.tx pri).transmit s.txCfg pri msg)

theorem transmit_tx_self (s : State) (pri : HalTransqPri) (msg : Msg) :
    (transmit s pri msg).tx pri = (s.tx pri).transmit s.txCfg pri msg := State.setTx_tx_self ..

theorem transmit_tx_of_ne (s : State) {pri q : HalTransqPri} (msg : Msg) (h : q ≠ pri) :
    (transmit s pri msg).tx q = s.tx q := State.setTx_tx_of_ne _ _ h

def halTransqTx (s : State) (pri : HalTransqPri) (msg : Msg) : HalTransqRet × State :=
  if s.txCfg.txNum pri = 0 then (.badTxNum, s)
  else if (s.tx pri).txSlotFull then (.txFull, s)
  else (.ok, transmit s pri msg)

def activeTxValid (lane : TxLane) : Bool :=
  transqSlotNum ≤ lane.activeTxSlot || lane.activeTxSlot ≠ lane.nextTxSlot || lane.txSlotFull

/-- The variables of a priority when the transmission in `slot` is done: the next one becomes active. -/
def TxLane.complete (cfg : HalTransqCfg) (pri : HalTransqPri) (lane : TxLane) (slot : Nat) : TxLane :=
  let next := getNextTxSlot cfg pri slot
  let lane := { lane with done := lane.done + 1 }
  if !lane.txSlotFull && next = lane.nextTxSlot then { lane with activeTxSlot := transqSlotNum }
  else if cfg.txNum pri = 1 then { lane with txSlotFull := false, activeTxSlot := transqSlotNum }
  else { lane with txSlotFull := false, activeTxSlot := next }

@[simp] theorem TxLane.complete_sent (cfg : HalTransqCfg) (pri : HalTransqPri) (lane : TxLane) (slot : Nat) :
    (lane.complete cfg pri slot).sent = lane.sent := by
  simp only [TxLane.complete]
  split <;> first | rfl | split <;> rfl

@[simp] theorem TxLane.complete_done (cfg : HalTransqCfg) (pri : HalTransqPri) (lane : TxLane) (slot : Nat) :
    (lane.complete cfg pri slot).done = lane.done + 1 := by
  simp only [TxLane.complete]
  split <;> first | rfl | split <;> rfl

@[simp] theorem TxLane.complete_called (cfg : HalTransqCfg) (pri : HalTransqPri) (lane : TxLane) (slot : Nat) :
    (lane.complete cfg pri slot).called = lane.called := by
  simp only [TxLane.complete]
  split <;> first | rfl | split <;> rfl

def complete (s : State) (pri : HalTransqPri) (slot : Nat) : State :=
  { s with regs := s.regs.ldoneIntclr (bit slot) }.setTx pri ((s.tx pri).complete s.txCfg pri slot)

theorem complete_tx_self (s : State) (pri : HalTransqPri) (slot : Nat) :
    (complete s pri slot).tx pri = (s.tx pri).complete s.txCfg pri slot := State.setTx_tx_self ..

theorem complete_tx_of_ne (s : State) {pri q : HalTransqPri} (slot : Nat) (h : q ≠ pri) :
    (complete s pri slot).tx q = s.tx q := State.setTx_tx_of_ne _ _ h

/-- The two reads of the local interrupt handler at the head of its loops. -/
def localIrqRead (s : State) : State :=
  if s.regs.lerrMis ≠ 0 then s.fail
  else if s.regs.ldoneMis = 0 then s
  else if s.txCfg.txHandler then { s with irq := .read s.regs.ldoneMis }
  else { s with regs := { s.regs with ldoneIntmask := 0 } }

/-- Its part under the interrupt lock, from the choice of a priority on. -/
def localIrqServe (s : State) (status : BitVec 32) (pri : HalTransqPri) : State :=
  let slot := (s.tx pri).activeTxSlot
  if slot < transqSlotNum ∧ status &&& bit slot ≠ 0 then
    { complete s pri slot with irq := .unlocked pri slot }
  else s.fail

/-- Its part under the interrupt lock. -/
def localIrqLocked (s : State) (status : BitVec 32) : State :=
  if !activeTxValid (s.tx .high) || !activeTxValid (s.tx .normal) then s.fail
  else if status &&& txIrqMask s.txCfg .high ≠ 0 then localIrqServe s status .high
  else if status &&& txIrqMask s.txCfg .normal ≠ 0 then localIrqServe s status .normal
  else s.fail

/-- Its call of `tx_handler`, with what is in the slot then. -/
def localIrqCall (s : State) (pri : HalTransqPri) (slot : Nat) : State :=
  { s with irq := .idle }.setTx pri { s.tx pri with called := (s.tx pri).called ++ [s.regs.slots slot] }

def halTransqGetTxStatus (s : State) (pri : HalTransqPri) : HalTransqRet × Bool × State :=
  if s.txCfg.txNum pri = 0 then (.badTxNum, false, s)
  else if s.txCfg.txHandler then (.badMode, false, s)
  else if !activeTxValid (s.tx pri) then (.ok, false, s.fail)
  else
    let slot := (s.tx pri).activeTxSlot
    if s.regs.ldoneRis &&& bit slot ≠ 0 then (.ok, true, complete s pri slot) else (.ok, false, s)

/-! ### The receiving core -/

/-- The next slot of the priority holds a message. -/
def rxReady (s : State) (pri : HalTransqPri) : Bool :=
  (s.rx pri).nextRxSlot < transqSlotNum && s.regs.rmtRis &&& bit (s.rx pri).nextRxSlot ≠ 0

/-- `No msg. Re-enable IRQ` -/
def rxEmpty (s : State) (pri : HalTransqPri) : State :=
  { s with regs := { s.regs with rmtIntmask := s.regs.rmtIntmask ||| rxIrqMask s.rxCfg pri } }

/-- The look at the next slot that both receive calls end with. -/
def rxLook (s : State) (pri : HalTransqPri) : HalTransqRet × Option Msg × State :=
  if rxReady s pri then (.ok, some (s.regs.slots (s.rx pri).nextRxSlot), s)
  else (.rxEmpty, none, rxEmpty s pri)

def halTransqRxFirst (s : State) (pri : HalTransqPri) : HalTransqRet × Option Msg × State :=
  if s.rxCfg.rxNum pri = 0 then (.badRxNum, none, s) else rxLook s pri

/-- The current message is read and its interrupt cleared. -/
def rxClear (s : State) (pri : HalTransqPri) : State :=
  let slot := (s.rx pri).nextRxSlot
  { s with regs := s.regs.rmtIntclr (bit slot) }.setRx pri
    { s.rx pri with call := .cleared s.rxHeld, consumed := (s.rx pri).consumed ++ [s.regs.slots slot] }

theorem rxClear_rx_self (s : State) (pri : HalTransqPri) : (rxClear s pri).rx pri =
    { s.rx pri with call := .cleared s.rxHeld,
                    consumed := (s.rx pri).consumed ++ [s.regs.slots (s.rx pri).nextRxSlot] } :=
  State.setRx_rx_self ..

theorem rxClear_rx_of_ne (s : State) {pri q : HalTransqPri} (h : q ≠ pri) :
    (rxClear s pri).rx q = s.rx q := State.setRx_rx_of_ne _ _ h

/-- `hal_transq_rx_next` up to the cleared interrupt. Without a current message, the call ends here. -/
def halTransqRxNext (s : State) (pri : HalTransqPri) : State :=
  if s.rxCfg.rxNum pri = 0 then s
  else if rxReady s pri then rxClear s pri
  else rxEmpty s pri

/-- `Update next_rx_slot` -/
def halTransqRxNextAdvance (s : State) (pri : HalTransqPri) : State :=
  s.setRx pri { s.rx pri with
    nextRxSlot := getNextRxSlot s.rxCfg pri (s.rx pri).nextRxSlot, call := .advanced }

/-- The end of `hal_transq_rx_next`, a look at the next message. -/
def halTransqRxNextLook (s : State) (pri : HalTransqPri) : HalTransqRet × Option Msg × State :=
  rxLook (s.setRx pri { s.rx pri with call := .idle }) pri

/-- A pass of the remote interrupt handler's loop, from the choice of a priority on. -/
def remoteIrqServe (s : State) (status : BitVec 32) (pri : HalTransqPri) : State :=
  let slot := (s.rx pri).nextRxSlot
  if slot < transqSlotNum ∧ status &&& bit slot ≠ 0 then
    { s with regs := { s.regs with rmtIntmask := s.regs.rmtIntmask &&& ~~~rxIrqMask s.rxCfg pri } }
  else s.fail

/-- A pass of the remote interrupt handler's loop. What `rx_handler` calls comes as steps of its own. -/
def remoteIrqPass (s : State) : State :=
  let status := s.regs.rmtMis
  if status &&& rxIrqMask s.rxCfg .high ≠ 0 then remoteIrqServe s status .high
  else if status &&& rxIrqMask s.rxCfg .normal ≠ 0 then remoteIrqServe s status .normal
  else s.fail

/-! ### The system -/

inductive Event
  | tx (pri : HalTransqPri) (msg : Msg)
  | getTxStatus (pri : HalTransqPri)
  | localIrqRead
  | localIrqLocked
  | localIrqCall
  | rxFirst (pri : HalTransqPri)
  | rxNext (pri : HalTransqPri)
  | rxNextAdvance (pri : HalTransqPri)
  | rxNextLook (pri : HalTransqPri)
  | remoteIrq
  | rxHold
  | rxRelease
  deriving DecidableEq, Repr

/-- The remote interrupt is about to be taken. -/
def remotePending (s : State) : Bool := s.rxCfg.rxHandler && !s.rxHeld && s.regs.rmtMis ≠ 0

/-- A step of the receiving core outside the interrupt handler. -/
def rxStep (s : State) (allowed : Bool) (next : State) : Option State :=
  if allowed && !remotePending s then some next else none

/-- A call that runs with interrupts held does not release them between its accesses. -/
def releasable (s : State) : Bool :=
  (s.rx .normal).call ≠ .cleared true && (s.rx .high).call ≠ .cleared true

/-- The state after an event that can happen; nothing happens after a failed assertion. -/
def step (s : State) (e : Event) : Option State :=
  if s.failed then none
  else match e with
    | .tx pri msg => some (halTransqTx s pri msg).2
    | .getTxStatus pri => some (halTransqGetTxStatus s pri).2.2
    | .localIrqRead => if s.irq = .idle then some (localIrqRead s) else none
    | .localIrqLocked =>
        match s.irq with
        | .read status => some (localIrqLocked s status)
        | _ => none
    | .localIrqCall =>
        match s.irq with
        | .unlocked pri slot => some (localIrqCall s pri slot)
        | _ => none
    | .rxFirst pri => rxStep s ((s.rx pri).call = .idle) (halTransqRxFirst s pri).2.2
    | .rxNext pri => rxStep s ((s.rx pri).call = .idle) (halTransqRxNext s pri)
    | .rxNextAdvance pri =>
        match (s.rx pri).call with
        | .cleared _ => rxStep s true (halTransqRxNextAdvance s pri)
        | _ => none
    | .rxNextLook pri => rxStep s ((s.rx pri).call = .advanced) (halTransqRxNextLook s pri).2.2
    | .remoteIrq => if remotePending s then some (remoteIrqPass s) else none
    | .rxHold => some { s with rxHeld := true }
    | .rxRelease => if releasable s then some { s with rxHeld := false } else none

end Best1307.Transq
