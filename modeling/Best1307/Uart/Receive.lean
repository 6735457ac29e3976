import Mathlib.Algebra.Group.Nat.Defs
import Best1307.Lib.WrapBuffer

/-!
# Receiving from a UART into a ring with a margin

The DMA puts received bytes behind the input cursor. When a transfer ends at or behind the end of the ring, the cursor
goes back to the start, and the bytes behind the end stay in a margin. A thread hands the bytes on from the output
cursor. It looks at the counts once when it wakes up and again each time it has handed something on, and at the margin
only if it knows that there is something in it.
-/

namespace Best1307.UartDma

open WrapBuffer

def uartBufSize : Nat := 640
def uartBufSizeMargin : Nat := 512
def uartRecChunkSize : Nat := uartBufSizeMargin + uartBufSize

/-- What the thread does: it waits for its signal, it hands on what it has seen, or it has handed it on. -/
inductive Phase
  | waiting
  | looking (bytesInBuffer bytesInMarginBuffer : Nat)
  | handed (bytesInBuffer endIndexInBuffer bytesInMarginBuffer : Nat)
  deriving DecidableEq, Repr

/-- `UART_DATA_BUF_ENV_T`, the transfer that runs with what it may take and has taken, the signal to the thread, and
the bytes received and handed on with the ranges they were handed on in. -/
structure State where
  inputCursor : Nat
  outputCursor : Nat
  bytesInBuffer : Nat
  bytesInMarginBuffer : Nat
  uartBuf : Nat → UInt8
  chunk : Nat
  filled : Nat
  signal : Bool
  phase : Phase
  received : List UInt8
  handedOn : List UInt8
  ranges : List (Nat × Nat)

/-- `app_uart_start_receiving_data` -/
def State.start (uartBuf : Nat → UInt8) : State :=
  ⟨0, 0, 0, 0, uartBuf, uartRecChunkSize, 0, false, .waiting, [], [], []⟩

def sub32 (a b : Nat) : Nat := (a + (2 ^ 32 - b % 2 ^ 32)) % 2 ^ 32

namespace State

variable (s : State)

def arrive (data : List UInt8) : State := { s with
  uartBuf := write s.uartBuf (s.inputCursor + s.filled) data
  filled := s.filled + data.length
  received := s.received ++ data }

/-- `uart_dma_rx` without an error: it fails where its assertion does, and starts the next transfer. -/
def uartDmaRx : Option State :=
  let endIndexInBuffer := s.inputCursor + s.filled
  let s' := { s with
    bytesInBuffer := (s.bytesInBuffer + s.filled) % 2 ^ 32
    chunk := uartBufSizeMargin
    filled := 0
    signal := true }
  if uartBufSize ≤ endIndexInBuffer then
    if s.bytesInMarginBuffer = 0 then
      some { s' with inputCursor := 0, bytesInMarginBuffer := endIndexInBuffer - uartBufSize }
    else none
  else some { s' with inputCursor := s.inputCursor + s.filled }

def look (bytesInBuffer bytesInMarginBuffer : Nat) : Phase :=
  if 0 < bytesInBuffer then .looking bytesInBuffer bytesInMarginBuffer else .waiting

def rangeOf (bytesInBuffer bytesInMarginBuffer : Nat) : Nat × Nat :=
  let endIndexInBuffer := s.outputCursor + bytesInBuffer
  if 0 < bytesInMarginBuffer then
    let endIndex := uartBufSize + bytesInMarginBuffer
    if endIndexInBuffer ≠ endIndex then (sub32 endIndex s.outputCursor, endIndex)
    else (bytesInBuffer, endIndexInBuffer)
  else (bytesInBuffer, endIndexInBuffer)

end State

inductive Event
  | arrive (data : List UInt8)
  | complete
  | wake
  | hand
  | advance
  deriving DecidableEq, Repr

namespace State

/-- The bytes that arrive, the interrupt, and the thread: its first critical section, the return of the receiver, and
its second critical section. -/
def step (s : State) : Event → Option State
  | .arrive data => some (s.arrive data)
  | .complete => s.uartDmaRx
  | .wake => some { s with signal := false, phase := look s.bytesInBuffer s.bytesInMarginBuffer }
  | .hand =>
      match s.phase with
      | .looking b m =>
          let (bytesInBuffer, endIndexInBuffer) := s.rangeOf b m
          some { s with
            phase := .handed bytesInBuffer endIndexInBuffer m
            handedOn := s.handedOn ++ read s.uartBuf s.outputCursor bytesInBuffer
            ranges := s.ranges ++ [(s.outputCursor, bytesInBuffer)] }
      | _ => none
  | .advance =>
      match s.phase with
      | .handed b e m =>
          let bytesInBuffer := sub32 s.bytesInBuffer b
          let bytesInMarginBuffer := if 0 < m then sub32 s.bytesInMarginBuffer m else s.bytesInMarginBuffer
          some { s with
            outputCursor := if uartBufSize ≤ e then 0 else e
            bytesInBuffer := bytesInBuffer
            bytesInMarginBuffer := bytesInMarginBuffer
            phase := look bytesInBuffer (if 0 < m then bytesInMarginBuffer else m) }
      | _ => none

end State

end Best1307.UartDma
