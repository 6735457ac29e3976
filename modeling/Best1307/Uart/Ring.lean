import Best1307.Uart.Receive
import Best1307.Lib.Run

/-!
# What is received is handed on

The unread bytes are in one piece, or in two after the input cursor has gone back to the start. The thread tells the two
pieces apart only by the margin, and knows of the margin only what it saw when it woke up. So it goes wrong if a
transfer reaches into the margin while it is at work, or if bytes come behind those that end exactly with the ring
before it knows that they do.
-/

namespace Best1307.UartDma

open WrapBuffer

variable {s t : State} {o n g i : Nat}

/-! ### The unread bytes -/

/-- The unread bytes: from the output cursor on, and after the end of the ring or of the margin from the start. -/
def content (uartBuf : Nat → UInt8) (o n g i : Nat) : List UInt8 :=
  if o + n < uartBufSize then read uartBuf o n else read uartBuf o (uartBufSize + g - o) ++ read uartBuf 0 i

/-- The output cursor and the counts, once the thread has noted what it has handed on. -/
def State.settled (s : State) : Nat × Nat × Nat :=
  match s.phase with
  | .handed b e m => (if uartBufSize ≤ e then 0 else e, sub32 s.bytesInBuffer b,
      if 0 < m then sub32 s.bytesInMarginBuffer m else s.bytesInMarginBuffer)
  | _ => (s.outputCursor, s.bytesInBuffer, s.bytesInMarginBuffer)

/-- The unread bytes with those of the transfer that runs. -/
def State.unread (s : State) : List UInt8 :=
  content s.uartBuf s.settled.1 s.settled.2.1 s.settled.2.2 s.inputCursor ++ read s.uartBuf s.inputCursor s.filled

/-- The unread bytes end exactly with the ring, or would if more had not come behind them. -/
def State.AtEnd (s : State) : Prop := uartBufSize ≤ s.settled.1 + s.settled.2.1 ∧ s.settled.2.2 = 0

instance : Decidable s.AtEnd := inferInstanceAs (Decidable (_ ∧ _))

namespace State

/-- No more than the transfer may take, and no more unread than the ring holds. -/
def Allowed (s : State) : Event → Prop
  | .arrive data => s.filled + data.length ≤ s.chunk ∧
      s.received.length + data.length ≤ s.handedOn.length + uartBufSize
  | .complete => 0 < s.filled
  | .wake => s.phase = .waiting ∧ s.signal
  | .hand => ∃ b m, s.phase = .looking b m
  | .advance => ∃ b e m, s.phase = .handed b e m

/-- A transfer reaches the end of the ring only when nothing is in the margin, and into the margin only when the thread
waits. After unread bytes that end with the ring others come only if the thread is about to hand those on. -/
def Orderly (s : State) : Event → Prop
  | .complete =>
      (uartBufSize ≤ s.inputCursor + s.filled →
        s.bytesInMarginBuffer = 0 ∧ (uartBufSize < s.inputCursor + s.filled → s.phase = .waiting)) ∧
      (s.AtEnd → s.phase = .looking (uartBufSize - s.outputCursor) 0)
  | _ => True

/-- The bytes handed on are those received, in order; the others are still there; what is handed on lies in the buffer,
and is counted; and at rest all that was completed has been handed on. -/
structure Sound (s : State) : Prop where
  intact : s.received = s.handedOn ++ s.unread
  inside : ∀ r ∈ s.ranges, r.1 + r.2 ≤ uartRecChunkSize
  counted : ∀ b e m, s.phase = .handed b e m → b ≤ s.bytesInBuffer
  allHanded : s.phase = .waiting → s.signal = false → s.received.length = s.handedOn.length + s.filled

end State

/-! ### Where the unread bytes are -/

/-- In one piece up to the input cursor, or in two: up to the end of the ring or the margin, and from the start. -/
structure Layout (o n g i : Nat) : Prop where
  o_lt : o < uartBufSize
  i_lt : i < uartBufSize
  margin_le : uartBufSize + g ≤ uartRecChunkSize
  pieces : o + n = i ∧ g = 0 ∨ o + n = uartBufSize + g + i ∧ g + i ≤ o

theorem length_content {buf : Nat → UInt8} (h : Layout o n g i) : (content buf o n g i).length = n := by
  obtain ⟨ho, hi, -, hpieces⟩ := h
  rw [content]
  split
  · exact length_read
  · rw [List.length_append, length_read, length_read]
    omega

theorem content_write {buf : Nat → UInt8} {data : List UInt8} {filled : Nat} (h : Layout o n g i)
    (hroom : n + filled + data.length ≤ uartBufSize) :
    content (write buf (i + filled) data) o n g i = content buf o n g i := by
  obtain ⟨ho, hi, -, hpieces⟩ := h
  rw [content, content]
  split
  case isTrue hone => rw [read_write_of_apart (.inl (by omega))]
  case isFalse htwo =>
    rw [read_write_of_apart (.inr (by omega)), read_write_of_apart (.inl (by omega))]

theorem sub32_eq {a b : Nat} (hba : b ≤ a) (ha : a < 2 ^ 32) : sub32 a b = a - b := by
  rw [sub32]
  omega

theorem sub32_self (a : Nat) : sub32 a a = 0 := by
  rw [sub32]
  omega

/-- What the thread has seen is still so. -/
def PhaseOk (s : State) (o n g : Nat) : Prop :=
  match s.phase with
  | .waiting => s.outputCursor = o ∧ s.bytesInBuffer = n ∧ s.bytesInMarginBuffer = g ∧ (s.signal = false → n = 0) ∧
      (uartBufSize ≤ o + n → g = 0 → s.inputCursor = 0)
  | .looking b m => s.outputCursor = o ∧ s.bytesInBuffer = n ∧ s.bytesInMarginBuffer = g ∧ m = g ∧ 0 < b ∧ b ≤ n ∧
      (g = 0 → o + b ≤ uartBufSize ∧ (uartBufSize ≤ o + n → 0 < s.inputCursor → o + b = uartBufSize))
  | .handed b e m => (if uartBufSize ≤ e then 0 else e) = o ∧ s.bytesInBuffer = n + b ∧ s.bytesInMarginBuffer = m ∧
      g = 0 ∧ b ≤ uartRecChunkSize ∧ (uartBufSize ≤ o + n → s.inputCursor = 0)

structure Inv (s : State) (o n g : Nat) : Prop where
  layout : Layout o n g s.inputCursor
  unread_le : n + s.filled ≤ uartBufSize
  filled_le : s.inputCursor + s.filled ≤ uartRecChunkSize
  filled_le_chunk : s.filled ≤ s.chunk
  chunk_eq : s.inputCursor = 0 ∧ s.chunk = uartRecChunkSize ∨ s.chunk = uartBufSizeMargin
  received_eq : s.received = s.handedOn ++ content s.uartBuf o n g s.inputCursor ++
    read s.uartBuf s.inputCursor s.filled
  phaseOk : PhaseOk s o n g
  inside : ∀ r ∈ s.ranges, r.1 + r.2 ≤ uartRecChunkSize

theorem Inv.settled (h : Inv s o n g) : s.settled = (o, n, g) := by
  have hphase := h.phaseOk
  have hle := h.unread_le
  rw [PhaseOk] at hphase
  rw [State.settled]
  cases hs : s.phase with
  | waiting =>
      simp only [hs] at hphase ⊢
      obtain ⟨rfl, rfl, rfl, -⟩ := hphase
      rfl
  | looking b m =>
      simp only [hs] at hphase ⊢
      obtain ⟨rfl, rfl, rfl, -⟩ := hphase
      rfl
  | handed b e m =>
      simp only [hs] at hphase ⊢
      obtain ⟨rfl, hbytes, hmargin, rfl, hb, -⟩ := hphase
      have hsub : sub32 s.bytesInBuffer b = n := by
        have : uartBufSize = 640 := rfl
        have : uartRecChunkSize = 1152 := rfl
        rw [hbytes, sub32_eq (by omega) (by omega), Nat.add_sub_cancel]
      have hzero : (if 0 < m then sub32 s.bytesInMarginBuffer m else s.bytesInMarginBuffer) = 0 := by
        rw [hmargin]
        split
        · exact sub32_self m
        · omega
      rw [hsub, hzero]

theorem Inv.unread_eq (h : Inv s o n g) : s.received = s.handedOn ++ s.unread := by
  rw [State.unread, h.settled, ← List.append_assoc]
  exact h.received_eq

theorem Inv.length_received (h : Inv s o n g) : s.received.length = s.handedOn.length + n + s.filled := by
  rw [h.received_eq, List.length_append, List.length_append, length_content h.layout, length_read]

theorem Inv.sound (h : Inv s o n g) : s.Sound where
  intact := h.unread_eq
  inside := h.inside
  counted b e m hs := by
    have hphase := h.phaseOk
    simp only [PhaseOk, hs] at hphase
    rw [hphase.2.1]
    exact Nat.le_add_left b n
  allHanded hs hsignal := by
    have hphase := h.phaseOk
    simp only [PhaseOk, hs] at hphase
    rw [h.length_received, hphase.2.2.2.1 hsignal, Nat.add_zero]

theorem inv_start (uartBuf : Nat → UInt8) : Inv (.start uartBuf) 0 0 0 where
  layout := ⟨Nat.le_of_ble_eq_true rfl, Nat.le_of_ble_eq_true rfl, Nat.le_of_ble_eq_true rfl, .inl ⟨rfl, rfl⟩⟩
  unread_le := Nat.zero_le _
  filled_le := Nat.zero_le _
  filled_le_chunk := Nat.zero_le _
  chunk_eq := .inl ⟨rfl, rfl⟩
  received_eq := rfl
  phaseOk := ⟨rfl, rfl, rfl, fun _ => rfl, fun _ _ => rfl⟩
  inside _ hr := absurd hr List.not_mem_nil

/-! ### The events -/

theorem Inv.arrive (h : Inv s o n g) {data : List UInt8} (hallowed : s.Allowed (.arrive data)) :
    Inv (s.arrive data) o n g := by
  obtain ⟨hchunk, hroom⟩ := hallowed
  have hlen := h.length_received
  have hroom : n + s.filled + data.length ≤ uartBufSize := by omega
  have hi := h.layout.i_lt
  have hfilled := h.filled_le_chunk
  have hin : s.inputCursor + (s.filled + data.length) ≤ uartRecChunkSize := by
    have : uartBufSize = 640 := rfl
    have : uartBufSizeMargin = 512 := rfl
    have : uartRecChunkSize = 1152 := rfl
    have := h.chunk_eq
    omega
  refine ⟨h.layout, ?_, hin, hchunk, h.chunk_eq, ?_, h.phaseOk, h.inside⟩
  · simp only [State.arrive]
    omega
  · simp only [State.arrive]
    rw [content_write h.layout hroom, read_add, read_write_of_apart (.inl (Nat.le_refl _)), read_write_self,
      ← List.append_assoc, h.received_eq]

theorem content_append {buf : Nat → UInt8} {filled : Nat} (h : Layout o n g i) (hon : i + filled < uartBufSize) :
    content buf o n g i ++ read buf i filled = content buf o (n + filled) g (i + filled) := by
  obtain ⟨ho, hi, -, ⟨hone, -⟩ | ⟨htwo, -⟩⟩ := h
  · have hbefore : o + n < uartBufSize := by omega
    have hafter : o + (n + filled) < uartBufSize := by omega
    rw [content, content, if_pos hbefore, if_pos hafter, read_add, hone]
  · have hbefore : ¬ o + n < uartBufSize := by omega
    have hafter : ¬ o + (n + filled) < uartBufSize := by omega
    have hsplit := read_add buf 0 i filled
    rw [Nat.zero_add] at hsplit
    rw [content, content, if_neg hbefore, if_neg hafter, hsplit, List.append_assoc]

theorem content_wrap {buf : Nat → UInt8} {filled : Nat} (hone : o + n = i) (hi : i < uartBufSize)
    (hend : uartBufSize ≤ i + filled) :
    content buf o n 0 i ++ read buf i filled = content buf o (n + filled) (i + filled - uartBufSize) 0 := by
  have hbefore : o + n < uartBufSize := by omega
  have hafter : ¬ o + (n + filled) < uartBufSize := by omega
  have hlen : uartBufSize + (i + filled - uartBufSize) - o = n + filled := by omega
  rw [content, content, if_pos hbefore, if_neg hafter, hlen, read_add, hone]
  exact (List.append_nil _).symm

/-- What the thread has counted is less than what 32 bits hold. -/
theorem Inv.bytesInBuffer_eq (h : Inv s o n g) :
    (s.bytesInBuffer + s.filled) % 2 ^ 32 = s.bytesInBuffer + s.filled := by
  have hle := h.unread_le
  have hphase := h.phaseOk
  have : uartBufSize = 640 := rfl
  have : uartRecChunkSize = 1152 := rfl
  refine Nat.mod_eq_of_lt ?_
  rw [PhaseOk] at hphase
  cases hs : s.phase with
  | waiting =>
      simp only [hs] at hphase
      omega
  | looking b m =>
      simp only [hs] at hphase
      omega
  | handed b e m =>
      simp only [hs] at hphase
      omega

theorem Inv.complete_wrap (h : Inv s o n g) (horderly : s.Orderly .complete)
    (hend : uartBufSize ≤ s.inputCursor + s.filled) :
    ∃ t, s.uartDmaRx = some t ∧ Inv t o (n + s.filled) (s.inputCursor + s.filled - uartBufSize) := by
  obtain ⟨hmargin, hmore⟩ := horderly.1 hend
  obtain ⟨ho, hi, -, hpieces⟩ := h.layout
  have hle := h.unread_le
  have hin := h.filled_le
  have hsize : uartBufSize = 640 := rfl
  have hchunk : uartRecChunkSize = 1152 := rfl
  have hatEnd : s.phase ≠ .waiting → s.inputCursor + s.filled - uartBufSize = 0 := fun hne =>
    Nat.sub_eq_zero_of_le (Nat.not_lt.mp fun hlt => hne (hmore hlt))
  -- the unread bytes were in one piece
  obtain ⟨hone, rfl⟩ : o + n = s.inputCursor ∧ g = 0 := by omega
  rw [State.uartDmaRx, if_pos hend, if_pos hmargin, h.bytesInBuffer_eq]
  refine ⟨_, rfl, ⟨ho, by simp only; omega, by omega, .inr ⟨by simp only; omega, by simp only; omega⟩⟩, hle,
    Nat.zero_le _, Nat.zero_le _, .inr rfl, ?_, ?_, h.inside⟩
  · simp only
    rw [← content_wrap hone hi hend, h.received_eq, List.append_assoc]
    exact (List.append_nil _).symm
  · have hphase := h.phaseOk
    rw [PhaseOk] at hphase ⊢
    cases hs : s.phase with
    | waiting =>
        simp only [hs] at hphase ⊢
        obtain ⟨hout, hbytes, -⟩ := hphase
        exact ⟨hout, by rw [hbytes], trivial, fun hfalse => Bool.noConfusion hfalse, fun _ _ => trivial⟩
    | looking b m =>
        have hexact := hatEnd (hs ▸ Phase.noConfusion)
        simp only [hs] at hphase ⊢
        obtain ⟨hout, hbytes, -, hm, hpos, hb, hfits⟩ := hphase
        refine ⟨hout, by rw [hbytes], trivial, hm.trans hexact.symm, hpos, by omega, fun _ => ⟨(hfits trivial).1, ?_⟩⟩
        exact fun _ hzero => absurd hzero (Nat.lt_irrefl 0)
    | handed b e m =>
        have hexact := hatEnd (hs ▸ Phase.noConfusion)
        simp only [hs] at hphase ⊢
        obtain ⟨hout, hbytes, hm, -, hb, -⟩ := hphase
        exact ⟨hout, by rw [hbytes]; omega, by omega, hexact, hb, fun _ => trivial⟩

theorem Inv.complete_on (h : Inv s o n g) (horderly : s.Orderly .complete)
    (hend : ¬ uartBufSize ≤ s.inputCursor + s.filled) :
    ∃ t, s.uartDmaRx = some t ∧ Inv t o (n + s.filled) g := by
  have hatEnd : uartBufSize ≤ o + n → g = 0 → s.phase = .looking (uartBufSize - s.outputCursor) 0 := by
    intro hend hzero
    refine horderly.2 ?_
    rw [State.AtEnd, h.settled]
    exact ⟨hend, hzero⟩
  obtain ⟨ho, hi, hg, hpieces⟩ := h.layout
  have hle := h.unread_le
  have hsize : uartBufSize = 640 := rfl
  have hchunk : uartRecChunkSize = 1152 := rfl
  rw [State.uartDmaRx, if_neg hend, h.bytesInBuffer_eq]
  refine ⟨_, rfl, ⟨ho, by simp only; omega, hg, by simp only; omega⟩, hle, by simp only; omega, Nat.zero_le _, .inr rfl,
    ?_, ?_, h.inside⟩
  · simp only
    rw [← content_append h.layout (by omega), h.received_eq, List.append_assoc]
    exact (List.append_nil _).symm
  · have hphase := h.phaseOk
    rw [PhaseOk] at hphase ⊢
    cases hs : s.phase with
    | waiting =>
        rw [hs] at hatEnd
        simp only [hs] at hphase ⊢
        obtain ⟨hout, hbytes, hmargin, -⟩ := hphase
        refine ⟨hout, by rw [hbytes], hmargin, fun hfalse => Bool.noConfusion hfalse, fun hmore hzero => ?_⟩
        -- one piece does not reach the end of the ring, and with two the thread is at work
        refine absurd (hatEnd ?_ hzero) Phase.noConfusion
        omega
    | looking b m =>
        rw [hs] at hatEnd
        simp only [hs] at hphase ⊢
        obtain ⟨hout, hbytes, hmargin, hm, hpos, hb, hfits⟩ := hphase
        refine ⟨hout, by rw [hbytes], hmargin, hm, hpos, by omega, fun hzero => ⟨(hfits hzero).1, fun hmore _ => ?_⟩⟩
        have hb := (Phase.looking.inj (hatEnd (by omega) hzero)).1
        omega
    | handed b e m =>
        rw [hs] at hatEnd
        simp only [hs] at hphase ⊢
        obtain ⟨hout, hbytes, hm, hzero, hb, -⟩ := hphase
        refine ⟨hout, by rw [hbytes]; omega, hm, hzero, hb, fun hmore => ?_⟩
        refine absurd (hatEnd ?_ hzero) Phase.noConfusion
        omega

theorem Inv.look (h : Inv s o n g) (hend : uartBufSize ≤ o + n → g = 0 → s.inputCursor = 0)
    (hout : t.outputCursor = o) (hbytes : t.bytesInBuffer = n) (hmargin : t.bytesInMarginBuffer = g)
    (hphase : t.phase = State.look n g) (hbuf : t.uartBuf = s.uartBuf) (hin : t.inputCursor = s.inputCursor)
    (hfilled : t.filled = s.filled) (hchunk : t.chunk = s.chunk) (hreceived : t.received = s.received)
    (hhanded : t.handedOn = s.handedOn) (hranges : t.ranges = s.ranges) : Inv t o n g := by
  refine ⟨hin ▸ h.layout, hfilled ▸ h.unread_le, ?_, ?_, ?_, ?_, ?_, hranges ▸ h.inside⟩
  · rw [hin, hfilled]
    exact h.filled_le
  · rw [hfilled, hchunk]
    exact h.filled_le_chunk
  · rw [hin, hchunk]
    exact h.chunk_eq
  · rw [hreceived, hhanded, hbuf, hin, hfilled]
    exact h.received_eq
  · obtain ⟨ho, hi, hg, hpieces⟩ := h.layout
    rw [PhaseOk, hphase, State.look, hin]
    by_cases hsome : 0 < n
    · rw [if_pos hsome]
      refine ⟨hout, hbytes, hmargin, rfl, hsome, Nat.le_refl n, fun hzero => ⟨?_, fun hmore hpos => ?_⟩⟩
      · by_cases hmore : uartBufSize ≤ o + n
        · have := hend hmore hzero
          omega
        · omega
      · exact absurd (hend hmore hzero) (Nat.pos_iff_ne_zero.mp hpos)
    · rw [if_neg hsome]
      exact ⟨hout, hbytes, hmargin, fun _ => Nat.eq_zero_of_not_pos hsome, hend⟩

theorem Inv.wake (h : Inv s o n g) (hphase : s.phase = .waiting) :
    Inv { s with signal := false, phase := State.look s.bytesInBuffer s.bytesInMarginBuffer } o n g := by
  have hwaiting := h.phaseOk
  simp only [PhaseOk, hphase] at hwaiting
  obtain ⟨hout, hbytes, hmargin, -, hend⟩ := hwaiting
  exact h.look hend hout hbytes hmargin (by rw [hbytes, hmargin]) rfl rfl rfl rfl rfl rfl rfl

theorem Inv.advance (h : Inv s o n g) {b e m : Nat} (hphase : s.phase = .handed b e m) :
    ∃ t, s.step .advance = some t ∧ Inv t o n g := by
  have hsettled := h.settled
  have hhanded := h.phaseOk
  simp only [PhaseOk, hphase] at hhanded
  obtain ⟨-, -, hmargin, hzero, -, hend⟩ := hhanded
  simp only [State.settled, hphase] at hsettled
  obtain ⟨hout, hrest⟩ := Prod.mk.inj hsettled
  obtain ⟨hbytes, hleft⟩ := Prod.mk.inj hrest
  have hseen : (if 0 < m then (if 0 < m then sub32 s.bytesInMarginBuffer m else s.bytesInMarginBuffer) else m) = g := by
    by_cases hpos : 0 < m
    · rw [if_pos hpos]
      exact hleft
    · rw [if_neg hpos]
      omega
  have hstep : s.step .advance = some { s with
      outputCursor := if uartBufSize ≤ e then 0 else e
      bytesInBuffer := sub32 s.bytesInBuffer b
      bytesInMarginBuffer := if 0 < m then sub32 s.bytesInMarginBuffer m else s.bytesInMarginBuffer
      phase := State.look (sub32 s.bytesInBuffer b) (if 0 < m then
        (if 0 < m then sub32 s.bytesInMarginBuffer m else s.bytesInMarginBuffer) else m) } := by
    simp only [State.step, hphase]
  refine ⟨_, hstep, ?_⟩
  exact h.look (fun hmore _ => hend hmore) hout hbytes hleft (by rw [hbytes, hseen]) rfl rfl rfl rfl rfl rfl rfl

/-- What is handed on is the first part of a piece, or all up to its end. -/
theorem Inv.rangeOf_eq (h : Inv s o n g) {b m : Nat} (hphase : s.phase = .looking b m) :
    ∃ len, s.rangeOf b m = (len, o + len) ∧ len ≤ n ∧
      (o + len < uartBufSize ∧ g = 0 ∧ (uartBufSize ≤ o + n → s.inputCursor = 0) ∨
        o + len = uartBufSize + g ∧ uartBufSize ≤ o + n) := by
  have hlooking := h.phaseOk
  simp only [PhaseOk, hphase] at hlooking
  obtain ⟨rfl, hbytes, hmargin, rfl, hpos, hb, hfits⟩ := hlooking
  obtain ⟨ho, hi, hg, hpieces⟩ := h.layout
  have hsize : uartBufSize = 640 := rfl
  have hchunk : uartRecChunkSize = 1152 := rfl
  rw [State.rangeOf]
  by_cases hzero : m = 0
  · obtain ⟨hend, hall⟩ := hfits hzero
    rw [hzero]
    refine ⟨b, rfl, hb, ?_⟩
    rcases Nat.lt_or_ge (s.outputCursor + b) uartBufSize with hlt | hge
    · refine .inl ⟨hlt, rfl, fun hmore => Nat.eq_zero_of_not_pos fun hsome => ?_⟩
      have := hall hmore hsome
      omega
    · exact .inr ⟨by omega, by omega⟩
  · have hpos : 0 < m := Nat.pos_of_ne_zero hzero
    have hlen : sub32 (uartBufSize + m) s.outputCursor = uartBufSize + m - s.outputCursor :=
      sub32_eq (by omega) (by omega)
    refine ⟨uartBufSize + m - s.outputCursor, ?_, by omega, .inr ⟨by omega, by omega⟩⟩
    have hend : s.outputCursor + (uartBufSize + m - s.outputCursor) = uartBufSize + m := by omega
    rw [hend]
    simp only [if_pos hpos, hlen]
    split
    case isTrue => rfl
    case isFalse hsame =>
      have hsame : s.outputCursor + b = uartBufSize + m := not_not.mp hsame
      exact Prod.ext (by simp only; omega) hsame

theorem Inv.hand (h : Inv s o n g) {b m : Nat} (hphase : s.phase = .looking b m) :
    ∃ t o' n' g', s.step .hand = some t ∧ Inv t o' n' g' := by
  obtain ⟨len, hrange, hlen, hend⟩ := h.rangeOf_eq hphase
  have hlooking := h.phaseOk
  simp only [PhaseOk, hphase] at hlooking
  obtain ⟨rfl, hbytes, hmargin, rfl, hpos, hb, hfits⟩ := hlooking
  obtain ⟨ho, hi, hg, hpieces⟩ := h.layout
  have hle := h.unread_le
  have hsize : uartBufSize = 640 := rfl
  have hchunk : uartRecChunkSize = 1152 := rfl
  have hinside : ∀ r ∈ s.ranges ++ [(s.outputCursor, len)], r.1 + r.2 ≤ uartRecChunkSize := by
    intro r hr
    rcases List.mem_append.mp hr with hold | hnew
    · exact h.inside r hold
    · rw [List.mem_singleton.mp hnew]
      simp only
      omega
  have hstep : s.step .hand = some { s with
      phase := .handed len (s.outputCursor + len) m
      handedOn := s.handedOn ++ read s.uartBuf s.outputCursor len
      ranges := s.ranges ++ [(s.outputCursor, len)] } := by
    simp only [State.step, hphase, hrange]
  rcases hend with ⟨hlt, rfl, hempty⟩ | ⟨hall, hmore⟩
  · -- the rest of the piece is left
    have hrest : s.outputCursor + len + (n - len) = s.outputCursor + n := by omega
    have hpieces : s.outputCursor + len + (n - len) = s.inputCursor ∧ 0 = 0 ∨
        s.outputCursor + len + (n - len) = uartBufSize + 0 + s.inputCursor ∧
          0 + s.inputCursor ≤ s.outputCursor + len := by
      rw [hrest]
      omega
    refine ⟨_, s.outputCursor + len, n - len, 0, hstep, ⟨hlt, hi, hg, hpieces⟩, by simp only; omega, h.filled_le,
       h.filled_le_chunk, h.chunk_eq, ?_, ?_, hinside⟩
    · have hsplit : content s.uartBuf s.outputCursor n 0 s.inputCursor = read s.uartBuf s.outputCursor len ++
          content s.uartBuf (s.outputCursor + len) (n - len) 0 s.inputCursor := by
        rw [content, content, hrest]
        split
        · rw [← read_add, Nat.add_sub_cancel' hlen]
        · have hpiece : uartBufSize + 0 - s.outputCursor = len + (uartBufSize + 0 - (s.outputCursor + len)) := by omega
          rw [hpiece, read_add, List.append_assoc]
      simp only
      rw [h.received_eq, hsplit, List.append_assoc, List.append_assoc, List.append_assoc, List.append_assoc]
    · refine ⟨if_neg (Nat.not_le.mpr hlt), ?_, hmargin, rfl, by omega, fun hmore => hempty (by omega)⟩
      simp only
      omega
  · -- the rest is at the start
    obtain ⟨htwo, hbelow⟩ : s.outputCursor + n = uartBufSize + m + s.inputCursor ∧
        m + s.inputCursor ≤ s.outputCursor := by
      omega
    refine ⟨_, 0, s.inputCursor, 0, hstep, ⟨by omega, hi, by omega, .inl ⟨Nat.zero_add _, rfl⟩⟩, ?_, h.filled_le,
      h.filled_le_chunk, h.chunk_eq, ?_, ?_, hinside⟩
    · simp only
      omega
    · have hlen : uartBufSize + m - s.outputCursor = len := by omega
      have hsplit : content s.uartBuf s.outputCursor n m s.inputCursor = read s.uartBuf s.outputCursor len ++
          content s.uartBuf 0 s.inputCursor 0 s.inputCursor := by
        rw [content, content, if_neg (Nat.not_lt.mpr hmore), if_pos (by omega), hlen]
      simp only
      rw [h.received_eq, hsplit, List.append_assoc, List.append_assoc, List.append_assoc, List.append_assoc]
    · refine ⟨if_pos (by omega), ?_, hmargin, rfl, by omega, fun hmore => ?_⟩
      · simp only
        omega
      · rw [Nat.zero_add] at hmore
        exact absurd hi (Nat.not_lt.mpr hmore)

theorem Inv.step (h : Inv s o n g) {e : Event} (hallowed : s.Allowed e) (horderly : s.Orderly e) :
    ∃ t o' n' g', s.step e = some t ∧ Inv t o' n' g' := by
  cases e with
  | arrive data => exact ⟨_, _, _, _, rfl, h.arrive hallowed⟩
  | complete =>
      by_cases hend : uartBufSize ≤ s.inputCursor + s.filled
      · obtain ⟨t, ht, hinv⟩ := h.complete_wrap horderly hend
        exact ⟨t, _, _, _, ht, hinv⟩
      · obtain ⟨t, ht, hinv⟩ := h.complete_on horderly hend
        exact ⟨t, _, _, _, ht, hinv⟩
  | wake => exact ⟨_, _, _, _, rfl, h.wake hallowed.1⟩
  | hand =>
      obtain ⟨b, m, hphase⟩ := hallowed
      exact h.hand hphase
  | advance =>
      obtain ⟨b, e, m, hphase⟩ := hallowed
      obtain ⟨t, ht, hinv⟩ := h.advance hphase
      exact ⟨t, _, _, _, ht, hinv⟩

/-- If transfers reach the end of the ring in order, nothing fails and the bytes are handed on as they were received. -/
theorem sound_of_orderly (uartBuf : Nat → UInt8) {events : List Event}
    (h : Along State.step (fun s e => s.Allowed e ∧ s.Orderly e) (.start uartBuf) events) :
    ∃ t, run State.step (.start uartBuf) events = some t ∧ t.Sound := by
  obtain ⟨t, ht, o, n, g, hinv⟩ := h.exists_run_invariant (fun s => ∃ o n g, Inv s o n g)
    (fun s e hs he => by
      obtain ⟨o, n, g, hs⟩ := hs
      obtain ⟨t, o', n', g', ht, hinv⟩ := hs.step he.1 he.2
      exact ⟨t, ht, o', n', g', hinv⟩) ⟨_, _, _, inv_start uartBuf⟩
  exact ⟨t, ht, hinv.sound⟩

def Phase.isLooking : Phase → Bool
  | .looking _ _ => true
  | _ => false

def Phase.isHanded : Phase → Bool
  | .handed _ _ _ => true
  | _ => false

theorem Phase.isLooking_iff {phase : Phase} : phase.isLooking ↔ ∃ b m, phase = .looking b m := by
  cases phase with
  | looking b m => exact iff_of_true rfl ⟨b, m, rfl⟩
  | waiting => exact iff_of_false Bool.noConfusion fun ⟨_, _, h⟩ => Phase.noConfusion h
  | handed b e m => exact iff_of_false Bool.noConfusion fun ⟨_, _, h⟩ => Phase.noConfusion h

theorem Phase.isHanded_iff {phase : Phase} : phase.isHanded ↔ ∃ b e m, phase = .handed b e m := by
  cases phase with
  | handed b e m => exact iff_of_true rfl ⟨b, e, m, rfl⟩
  | waiting => exact iff_of_false Bool.noConfusion fun ⟨_, _, _, h⟩ => Phase.noConfusion h
  | looking b m => exact iff_of_false Bool.noConfusion fun ⟨_, _, _, h⟩ => Phase.noConfusion h

instance (s : State) (e : Event) : Decidable (s.Allowed e) :=
  match e with
  | .arrive data => inferInstanceAs (Decidable (s.filled + data.length ≤ s.chunk ∧
      s.received.length + data.length ≤ s.handedOn.length + uartBufSize))
  | .complete => inferInstanceAs (Decidable (0 < s.filled))
  | .wake => inferInstanceAs (Decidable (s.phase = .waiting ∧ s.signal = true))
  | .hand => decidable_of_iff _ Phase.isLooking_iff
  | .advance => decidable_of_iff _ Phase.isHanded_iff

instance (s : State) (e : Event) : Decidable (s.Orderly e) :=
  match e with
  | .complete => inferInstanceAs (Decidable ((uartBufSize ≤ s.inputCursor + s.filled →
        s.bytesInMarginBuffer = 0 ∧ (uartBufSize < s.inputCursor + s.filled → s.phase = .waiting)) ∧
      (s.AtEnd → s.phase = .looking (uartBufSize - s.outputCursor) 0)))
  | .arrive _ => inferInstanceAs (Decidable True)
  | .wake => inferInstanceAs (Decidable True)
  | .hand => inferInstanceAs (Decidable True)
  | .advance => inferInstanceAs (Decidable True)

def zeros : Nat → UInt8 := fun _ => 0

/-- The first transfer reaches ten bytes into the margin before the thread is woken up, and one more comes while it is
at work. -/
def orderlyEvents : List Event :=
  [.arrive (List.replicate 600 1), .complete, .wake, .hand, .advance, .arrive (List.replicate 50 2), .complete, .wake,
    .arrive (List.replicate 20 3), .complete, .hand, .advance, .hand, .advance]

theorem orderlyEvents_sound : ∃ t, run State.step (.start zeros) orderlyEvents = some t ∧ t.Sound :=
  sound_of_orderly zeros (by decide +kernel)

/-- A transfer reaches ten bytes into the margin while the thread hands on those before; then one more byte comes. -/
def lateEvents : List Event :=
  [.arrive (List.replicate 300 1), .complete, .wake, .hand, .advance, .arrive (List.replicate 100 2), .complete, .wake,
    .arrive (List.replicate 250 3), .complete, .hand, .advance, .hand, .advance, .arrive [4], .complete, .wake, .hand]

/-- The margin that has been handed on is handed on again. -/
theorem lateEvents_not_sound : Along State.step State.Allowed (.start zeros) lateEvents ∧
    ∃ t, run State.step (.start zeros) lateEvents = some t ∧ ¬ t.Sound := by
  have hmore : (run State.step (.start zeros) lateEvents).any fun t => t.received.length < t.handedOn.length := by
    decide +kernel
  cases hrun : run State.step (.start zeros) lateEvents with
  | none =>
      rw [hrun] at hmore
      cases hmore
  | some t =>
      rw [hrun] at hmore
      refine ⟨by decide +kernel, t, rfl, fun hsound => ?_⟩
      have hlen := congrArg List.length hsound.intact
      have hlt : t.received.length < t.handedOn.length := of_decide_eq_true hmore
      rw [List.length_append] at hlen
      omega

end Best1307.UartDma
