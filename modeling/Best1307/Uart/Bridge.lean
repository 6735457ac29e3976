import Best1307.Uart.Receive
import Best1307.Lib.Run

/-!
# Packets over the UART

A packet has a header with the code of its command, a number and the length of its content. The receiving side is called
with what the UART layer hands on, takes that for one packet and the length in its header for that of the content.
Instant commands are handled at once; task commands go through a queue of entries to a thread.
-/

namespace Best1307.ChipBridge

open WrapBuffer

def maxDataPacketSize : Nat := 516
def headerDataSize : Nat := 6
def rxBuffSize : Nat := 5160
def rxThreadTmpBufSize : Nat := 516
def queueDataLenBytes : Nat := 2
def cmdGroupTask : Nat := 0
def cmdGroupInstant : Nat := 1

def cmdGroup (cmdcode : Nat) : Nat := cmdcode / 2 ^ 8

/-! ### Packets -/

def word (mem : Nat → UInt8) (i : Nat) : Nat := (mem i).toNat + 256 * (mem (i + 1)).toNat

/-- `app_chip_bridge_data_packet_t` -/
structure Packet where
  cmdcode : Nat
  cmdseq : Nat
  content : List UInt8
  deriving DecidableEq, Repr

def Packet.header (p : Packet) : List UInt8 :=
  [.ofNat p.cmdcode, .ofNat (p.cmdcode / 256), .ofNat p.cmdseq, .ofNat (p.cmdseq / 256),
    .ofNat p.content.length, .ofNat (p.content.length / 256)]

def Packet.bytes (p : Packet) : List UInt8 := p.header ++ p.content

/-- A handler is called: what it may read with the length it is given, and the bytes that were received. -/
structure Call where
  cmdcode : Nat
  content : List UInt8
  received : Nat
  deriving DecidableEq, Repr

/-- The commands of the two tables, and whether they have a handler. -/
structure Config where
  taskEntry : Nat → Option Bool
  instantEntry : Nat → Option Bool

/-- The bytes on the line, the sender's number, the queue and the thread's buffer, the calls, and what was sent. -/
structure State where
  line : List UInt8
  cmdseq : Nat
  queue : List UInt8
  rcvTmpBuffer : Nat → UInt8
  calls : List Call
  sent : List (Nat × List UInt8)

def State.init : State := ⟨[], 0, [], fun _ => 0, [], []⟩

namespace State

variable (cfg : Config) (s : State)

/-- `app_chip_bridge_transmit_data` and `app_chip_bridge_send_instant_cmd_data`: the content must not be too long. -/
def transmitData (cmdcode : Nat) (content : List UInt8) : Option State :=
  if content.length ≤ maxDataPacketSize then
    some { s with
      line := s.line ++ (Packet.mk cmdcode s.cmdseq content).bytes
      cmdseq := (s.cmdseq + 1) % 2 ^ 16
      sent := s.sent ++ [(cmdcode, content)] }
  else none

/-! ### The queue -/

def queuePush (data : List UInt8) : State :=
  let dataLen := data.length % 2 ^ 16
  if 0 < data.length ∧ dataLen + queueDataLenBytes ≤ rxBuffSize - s.queue.length then
    { s with queue := s.queue ++ ([UInt8.ofNat dataLen, UInt8.ofNat (dataLen / 256)] ++ data) }
  else s

def queueGetNextEntryLength : Nat := word (fun i => (s.queue[i]?).getD 0) 0

/-- The bytes popped go to the thread's buffer. -/
def queuePop (len : Nat) : State :=
  let rest := s.queue.drop queueDataLenBytes
  if len ≤ rest.length then
    { s with rcvTmpBuffer := write s.rcvTmpBuffer 0 (rest.take len), queue := rest.drop len }
  else { s with rcvTmpBuffer := write s.rcvTmpBuffer 0 (List.replicate len 0), queue := rest }

/-! ### Receiving -/

/-- The handler of an entry is called with the content and the length of the header; without an entry the assertion of
the search fails. -/
def handle (entry : Option Bool) (mem : Nat → UInt8) (received : Nat) : Option State :=
  entry.map fun cmdhandler =>
    if cmdhandler then
      { s with calls := s.calls ++ [⟨word mem 0, read mem headerDataSize (word mem 4), received⟩] }
    else s

/-- `app_chip_bridge_data_received`, with what lies behind the data -/
def dataReceived (data : List UInt8) (behind : Nat → UInt8) : Option State :=
  let mem := write behind 0 data
  if cmdGroup (word mem 0) = cmdGroupInstant then s.handle (cfg.instantEntry (word mem 0)) mem data.length
  else some (s.queuePush data)

/-- `app_chip_bridge_rx_handler` -/
def rxHandler (length : Nat) : Option State :=
  if cmdGroup (word s.rcvTmpBuffer 0) = cmdGroupTask then
    s.handle (cfg.taskEntry (word s.rcvTmpBuffer 0)) s.rcvTmpBuffer length
  else none

/-- One turn of the loop of `app_chip_bridge_rx_thread`. -/
def rxTurn : Option State :=
  if s.queue.length = 0 then some s
  else
    let rcvLength := s.queueGetNextEntryLength
    if rcvLength ≤ rxThreadTmpBufSize then
      if 0 < rcvLength then (s.queuePop rcvLength).rxHandler cfg rcvLength else some s
    else none

end State

/-! ### What happens -/

/-- A command is sent, other bytes come on the line, the UART layer hands on the next bytes, the thread has a turn. -/
inductive Event
  | send (cmdcode : Nat) (content : List UInt8)
  | noise (bytes : List UInt8)
  | deliver (len : Nat) (behind : Nat → UInt8)
  | turn

namespace State

variable (cfg : Config)

def step (s : State) : Event → Option State
  | .send cmdcode content => s.transmitData cmdcode content
  | .noise bytes => some { s with line := s.line ++ bytes }
  | .deliver len behind => { s with line := s.line.drop len }.dataReceived cfg (s.line.take len) behind
  | .turn => s.rxTurn cfg

def Registered (cmdcode : Nat) : Prop :=
  cmdGroup cmdcode = cmdGroupTask ∧ cfg.taskEntry cmdcode = some true ∨
    cmdGroup cmdcode = cmdGroupInstant ∧ cfg.instantEntry cmdcode = some true

/-- Commands with a handler are sent, and no chunk is larger than the UART buffer or finds no room in the queue. -/
def Allowed (s : State) : Event → Prop
  | .send cmdcode content => Registered cfg cmdcode ∧ content.length ≤ maxDataPacketSize
  | .noise _ => True
  | .deliver len _ => 0 < len ∧ len ≤ s.line.length ∧ len ≤ UartDma.uartRecChunkSize ∧
      s.queue.length + queueDataLenBytes + len ≤ rxBuffSize
  | .turn => True

/-- Nothing but packets is on the line, each chunk is one of them, and the content of a task command fits the thread's
buffer with the header. -/
def Exact (s : State) : Event → Prop
  | .send cmdcode content =>
      cmdGroup cmdcode = cmdGroupTask → headerDataSize + content.length ≤ rxThreadTmpBufSize
  | .noise _ => False
  | .deliver len behind => len = headerDataSize + word (write behind 0 (s.line.take len)) 4
  | .turn => True

/-- The length in a chunk's header is not more than what was received. -/
def Bounded (s : State) : Event → Prop
  | .deliver len behind => headerDataSize + word (write behind 0 (s.line.take len)) 4 ≤ len
  | _ => True

def sentIn (s : State) (group : Nat) : List (Nat × List UInt8) := s.sent.filter fun c => cmdGroup c.1 == group

def calledIn (s : State) (group : Nat) : List (Nat × List UInt8) :=
  (s.calls.map fun c => (c.cmdcode, c.content)).filter fun c => cmdGroup c.1 == group

/-- In either group the handlers are called for the commands sent, in order, with what was sent: for all that have been
handed on, and for a task command once the thread has taken it. -/
structure Delivered (s : State) : Prop where
  task : s.calledIn cmdGroupTask <+: s.sentIn cmdGroupTask
  instant : s.calledIn cmdGroupInstant <+: s.sentIn cmdGroupInstant
  instantAll : s.line = [] → s.calledIn cmdGroupInstant = s.sentIn cmdGroupInstant
  taskAll : s.line = [] → s.queue = [] → s.calledIn cmdGroupTask = s.sentIn cmdGroupTask

/-- No handler is given a length beyond what was received. -/
def WithinReceived (s : State) : Prop := ∀ c ∈ s.calls, headerDataSize + c.content.length ≤ c.received

end State

end Best1307.ChipBridge
