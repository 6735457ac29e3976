import Mathlib.Data.List.Infix
import Best1307.Lib.Run
import Best1307.Lib.SlotRing
import Best1307.Lib.WrapBuffer

/-!
# The trace ring between two cores

The sender copies each trace in one piece to `trc_buf` and enters the position behind it in
`trc_entry_list`; the receiver outputs the traces entered and moves `entry_rpos`. A trace begins where the one
before it ends, or at the buffer head if its end is not behind that.

The sender compares the byte positions at the two ends of the entry ring. Equal positions mean to it that
nothing is unread, but the unread traces may also fill the buffer exactly.
-/

namespace Best1307.RmtTrace

open WrapBuffer SlotRing

/-- `RMT_TRC_BUF_SIZE` and `RMT_TRC_ENTRY_CNT`, within the static assertions on them. -/
structure Config where
  bufSize : Nat
  entryCnt : Nat
  bufSize_lt : bufSize < 65535
  entryCnt_lt : entryCnt < 65535
  entryCnt_pos : 0 < entryCnt

def defaultConfig : Config :=
  ⟨1024 * 4, 100, Nat.le_of_ble_eq_true rfl, Nat.le_of_ble_eq_true rfl, Nat.le_of_ble_eq_true rfl⟩

/-- Where `trace_msg_handler` stands: not running, behind its look at the discard counters, or in its loop
with `entry_rpos`, `entry_wpos` and `trace_start`. -/
inductive Receiver
  | idle
  | begun
  | reading (entryRpos entryWpos traceStart : Nat)
  deriving DecidableEq, Repr

/-- What both cores see, and the receiver. The last three fields log the traces taken in, how many were
refused, and what `TRACE_OUTPUT` was given. -/
structure State where
  trcBuf : Nat → UInt8
  trcEntryList : Nat → Nat
  entryRpos : Nat
  entryWpos : Nat
  discardCntR : UInt16
  discardCntW : UInt16
  receiver : Receiver
  accepted : List (List UInt8)
  refused : Nat
  output : List (List UInt8)

/-- `hal_ipc_rmt_trace_sender_open` -/
def State.opened : State where
  trcBuf _ := 0
  trcEntryList _ := 0
  entryRpos := 0
  entryWpos := 0
  discardCntR := 0
  discardCntW := 0
  receiver := .idle
  accepted := []
  refused := 0
  output := []

namespace State

variable (cfg : Config) (s : State)

def entryAvail : Nat :=
  if s.entryRpos ≤ s.entryWpos then cfg.entryCnt - (s.entryWpos - s.entryRpos) - 1
  else s.entryRpos - s.entryWpos - 1

def bufRpos : Nat := s.trcEntryList s.entryRpos

def bufWpos : Nat := s.trcEntryList s.entryWpos

/-- Where a trace of `bufLen` bytes would go, and the room there. It does not wrap. -/
def place (bufLen : Nat) : Nat × Nat :=
  if s.bufRpos ≤ s.bufWpos then
    if cfg.bufSize - s.bufWpos < bufLen ∧ s.bufRpos ≠ 0 then (0, s.bufRpos)
    else (s.bufWpos, cfg.bufSize - s.bufWpos)
  else (s.bufWpos, s.bufRpos - s.bufWpos)

def discard : State := { s with discardCntW := s.discardCntW + 1, refused := s.refused + 1 }

def nextEntry (pos : Nat) : Nat := if cfg.entryCnt ≤ pos + 1 then pos + 1 - cfg.entryCnt else pos + 1

def rmtTrcOutputHandler (buf : List UInt8) : State :=
  if buf.length = 0 then s
  else if s.entryAvail cfg < 1 then s.discard
  else if (s.place cfg buf.length).2 < buf.length then s.discard
  else
    let bufWpos := (s.place cfg buf.length).1
    let entryWpos := nextEntry cfg s.entryWpos
    { s with
      trcBuf := write s.trcBuf bufWpos buf
      trcEntryList := Function.update s.trcEntryList entryWpos (bufWpos + buf.length)
      entryWpos := entryWpos
      accepted := s.accepted ++ [buf] }

/-- One turn of the loop of `trace_msg_handler`; `TRACE_OUTPUT` accepts what it is given. -/
def outputTrace (entryRpos entryWpos traceStart : Nat) : State :=
  let entryRpos := if cfg.entryCnt ≤ entryRpos + 1 then 0 else entryRpos + 1
  let traceEnd := s.trcEntryList entryRpos
  let traceStart := if traceEnd ≤ traceStart then 0 else traceStart
  let len := traceEnd - traceStart
  { s with
    receiver := .reading entryRpos entryWpos traceEnd
    output := if len ≠ 0 then s.output ++ [read s.trcBuf traceStart len] else s.output }

end State

/-- A trace is output on the sending core, or the receiver goes on: it looks at the discard counters, at the
entry positions, outputs the next trace, gives up the entries it has read. -/
inductive Event
  | output (buf : List UInt8)
  | rxDiscard
  | rxEntries
  | rxTrace
  | rxDone
  deriving DecidableEq, Repr

def step (cfg : Config) (s : State) : Event → Option State
  | .output buf => some (s.rmtTrcOutputHandler cfg buf)
  | .rxDiscard =>
      match s.receiver with
      | .idle => some { s with receiver := .begun, discardCntR := s.discardCntW }
      | _ => none
  | .rxEntries =>
      match s.receiver with
      | .begun => some { s with receiver := .reading s.entryRpos s.entryWpos s.bufRpos }
      | _ => none
  | .rxTrace =>
      match s.receiver with
      | .reading entryRpos entryWpos traceStart =>
          if entryRpos ≠ entryWpos then some (s.outputTrace cfg entryRpos entryWpos traceStart) else none
      | _ => none
  | .rxDone =>
      match s.receiver with
      | .reading entryRpos entryWpos _ =>
          if entryRpos = entryWpos then some { s with receiver := .idle, entryRpos := entryRpos } else none
      | _ => none

/-- `rmt_trc_output_handler` takes the trace in. -/
def State.Accepts (cfg : Config) (s : State) (buf : List UInt8) : Prop :=
  buf.length ≠ 0 ∧ 1 ≤ s.entryAvail cfg ∧ buf.length ≤ (s.place cfg buf.length).2

/-- With entries unread, no trace is taken in where the unread traces fill the buffer exactly, with the oldest
of them in the tail; nor put at the buffer head while the oldest of them lies there. -/
def NotTakenForEmpty (cfg : Config) (s : State) : Event → Prop
  | .output buf => s.entryRpos ≠ s.entryWpos → s.Accepts cfg buf →
      let firstEnd := s.trcEntryList (State.nextEntry cfg s.entryRpos)
      ¬ (s.bufWpos = s.bufRpos ∧ s.bufRpos < firstEnd) ∧
      ¬ (firstEnd ≤ s.bufRpos ∧ s.bufRpos ≤ s.bufWpos ∧ cfg.bufSize - s.bufWpos < buf.length)
  | _ => True

instance (cfg : Config) (s : State) (buf : List UInt8) : Decidable (s.Accepts cfg buf) :=
  inferInstanceAs (Decidable (_ ∧ _))

instance (cfg : Config) (s : State) : (e : Event) → Decidable (NotTakenForEmpty cfg s e)
  | .output _ => inferInstanceAs (Decidable (_ → _))
  | .rxDiscard => inferInstanceAs (Decidable True)
  | .rxEntries => inferInstanceAs (Decidable True)
  | .rxTrace => inferInstanceAs (Decidable True)
  | .rxDone => inferInstanceAs (Decidable True)

/-! ### Where the unread traces lie -/

variable {cfg : Config} {s s' : State} {buf : List UInt8} {b : Block UInt8}
  {front back blocks blocks' : List (Block UInt8)} {size r w : Nat}

/-- Each block lies where the receiver looks for it: behind the one before it, or at the buffer head if it
does not end behind that. -/
def Readable : Nat → List (Block UInt8) → Prop
  | _, [] => True
  | e, b :: blocks => b.pos = (if b.fin ≤ e then 0 else e) ∧ b.data ≠ [] ∧ Readable b.fin blocks

theorem readable_append {e : Nat} :
    Readable e (blocks ++ blocks') ↔ Readable e blocks ∧ Readable (endOf e blocks) blocks' := by
  induction blocks generalizing e with
  | nil => exact (true_and _).symm ▸ Iff.rfl
  | cons c blocks ih =>
      simp only [List.cons_append, Readable, ih, and_assoc]
      rfl

theorem readable_getElem {e i : Nat} (h : Readable e blocks) (hi : i < blocks.length) :
    blocks[i].pos = (if blocks[i].fin ≤ endOf e (blocks.take i) then 0 else endOf e (blocks.take i)) ∧
      blocks[i].data ≠ [] := by
  rw [← List.take_append_drop i blocks, readable_append] at h
  have hdrop := h.2
  rw [List.drop_eq_getElem_cons hi] at hdrop
  exact ⟨hdrop.1, hdrop.2.1⟩

/-- The unread blocks, given the byte positions `r` and `w` at the ends of the entries: from `r` up to `w`; or
first from `r` up, then from the buffer head up to `w`, where `w` is behind `r` only if all of them start at
the head. -/
def Layout (size r w : Nat) (front back : List (Block UInt8)) : Prop :=
  w ≤ size ∧ (back = [] ∧ Chain r w front ∨
    Chain r size front ∧ Chain 0 w back ∧ (∃ b ∈ back.head?, b.fin ≤ r) ∧ (front = [] ∨ w ≤ r))

namespace Layout

theorem pairwise (h : Layout size r w front back) : (front ++ back).Pairwise Block.Apart := by
  rcases h.2 with ⟨rfl, hfront⟩ | ⟨hfront, hback, -, hside⟩
  · rw [List.append_nil]
    exact hfront.pairwise
  · refine List.pairwise_append.mpr ⟨hfront.pairwise, hback.pairwise, fun c hc c' hc' => ?_⟩
    rcases hside with rfl | hside
    · exact absurd hc List.not_mem_nil
    · exact hfront.apart hback hside hc hc'

theorem fin_le (h : Layout size r w front back) (hb : b ∈ front ++ back) : b.fin ≤ size := by
  obtain ⟨hw, ⟨rfl, hfront⟩ | ⟨hfront, hback, -, -⟩⟩ := h
  · rw [List.append_nil] at hb
    exact Nat.le_trans (hfront.mem hb).2 hw
  · rcases List.mem_append.mp hb with hb | hb
    · exact (hfront.mem hb).2
    · exact Nat.le_trans (hback.mem hb).2 hw

theorem tail (h : Layout size r w front back) (hcons : front ++ back = b :: blocks) :
    ∃ front' back', front' ++ back' = blocks ∧ Layout size b.fin w front' back' := by
  obtain ⟨hw, hlayout⟩ := h
  cases front with
  | nil =>
      rw [List.nil_append] at hcons
      subst hcons
      rcases hlayout with ⟨hnil, -⟩ | ⟨-, hback, -, -⟩
      · cases hnil
      · exact ⟨blocks, [], List.append_nil _, hw, .inl ⟨rfl, hback.2⟩⟩
  | cons c front =>
      obtain ⟨rfl, rfl⟩ := List.cons.inj hcons
      refine ⟨front, back, rfl, hw, ?_⟩
      rcases hlayout with ⟨hnil, hfront⟩ | ⟨hfront, hback, ⟨first, hfirst, hle⟩, hside⟩
      · exact .inl ⟨hnil, hfront.2⟩
      · have hr : r ≤ c.fin := Nat.le_trans hfront.1 (Nat.le_add_right _ _)
        refine .inr ⟨hfront.2, hback, ⟨first, hfirst, Nat.le_trans hle hr⟩, .inr ?_⟩
        rcases hside with hnil | hside
        · cases hnil
        · exact Nat.le_trans hside hr

theorem drop (h : Layout size r w front back) {j : Nat} (hj : j ≤ (front ++ back).length) :
    ∃ front' back', front' ++ back' = (front ++ back).drop j ∧
      Layout size (endOf r ((front ++ back).take j)) w front' back' := by
  induction j generalizing r front back with
  | zero => exact ⟨front, back, rfl, h⟩
  | succ j ih =>
      cases hblocks : front ++ back with
      | nil =>
          rw [hblocks] at hj
          exact absurd hj (Nat.not_succ_le_zero j)
      | cons c blocks =>
          obtain ⟨front', back', rfl, htail⟩ := h.tail hblocks
          rw [hblocks, List.length_cons] at hj
          exact ih htail (Nat.le_of_succ_le_succ hj)

end Layout

/-- A trace the sender takes in is put where no unread one lies, unless unread ones are taken for none. -/
theorem Layout.place (h : Layout size r w front back) (hreadable : Readable r (front ++ back))
    {data : List UInt8} (hdata : data ≠ []) {p avail : Nat}
    (hplace : (if r ≤ w then
      if size - w < data.length ∧ r ≠ 0 then (0, r) else (w, size - w) else (w, r - w)) = (p, avail))
    (havail : data.length ≤ avail)
    (hempty : ∀ b ∈ (front ++ back).head?,
      ¬ (w = r ∧ r < b.fin) ∧ ¬ (b.fin ≤ r ∧ r ≤ w ∧ size - w < data.length)) :
    (∃ front' back', front' ++ back' = front ++ back ++ [⟨p, data⟩] ∧
      Layout size r (p + data.length) front' back') ∧
      p = if p + data.length ≤ w then 0 else w := by
  have hlen : 0 < data.length := List.length_pos_of_ne_nil hdata
  obtain ⟨hw, hlayout⟩ := h
  -- what lies in front of the buffer head, if anything, has the oldest block in the tail
  have hwrapped : Chain r size front → front = [] ∨ w ≤ r → r ≤ w → front = [] := by
    intro hchain hside hrw
    cases front with
    | nil => rfl
    | cons c front =>
        have hwr : w ≤ r := hside.resolve_left (List.cons_ne_nil _ _)
        have hfin : r < c.fin := by
          have := hchain.1
          have := List.length_pos_of_ne_nil hreadable.2.1
          rw [Block.fin]
          omega
        exact ((hempty c rfl).1 ⟨by omega, hfin⟩).elim
  split at hplace
  case isTrue hrw =>
    split at hplace
    case isTrue hwrap =>
      obtain ⟨hp, ha⟩ := Prod.mk.inj hplace
      subst hp
      refine ⟨?_, by rw [if_pos (by omega)]⟩
      rcases hlayout with ⟨rfl, hchain⟩ | ⟨hchain, hback, ⟨first, hfirst, hle⟩, hside⟩
      · refine ⟨front, [⟨0, data⟩], by rw [List.append_nil], by omega, .inr ⟨hchain.mono (Nat.le_refl _) hw,
          ⟨Nat.le_refl _, ?_⟩, ⟨_, rfl, ?_⟩, .inr (by omega)⟩⟩
        · exact Nat.le_refl _
        · change 0 + data.length ≤ r
          omega
      · obtain rfl := hwrapped hchain hside hrw
        have := (hempty first hfirst).2 ⟨hle, hrw, hwrap.1⟩
        exact this.elim
    case isFalse hroom =>
      obtain ⟨hp, ha⟩ := Prod.mk.inj hplace
      subst hp
      refine ⟨?_, by rw [if_neg (by omega)]⟩
      rcases hlayout with ⟨rfl, hchain⟩ | ⟨hchain, hback, hfirst, hside⟩
      · exact ⟨front ++ [⟨w, data⟩], [], by rw [List.append_nil, List.append_nil], by omega,
          .inl ⟨rfl, hchain.concat (Nat.le_refl _) (Nat.le_refl _)⟩⟩
      · obtain rfl := hwrapped hchain hside hrw
        refine ⟨[], back ++ [⟨w, data⟩], rfl, by omega, .inr ⟨hchain,
          hback.concat (Nat.le_refl _) (Nat.le_refl _), ?_, .inl rfl⟩⟩
        obtain ⟨first, hfirst, hle⟩ := hfirst
        exact ⟨first, by rw [List.head?_append, Option.mem_def.mp hfirst]; rfl, hle⟩
  case isFalse hrw =>
    obtain ⟨hp, ha⟩ := Prod.mk.inj hplace
    subst hp
    refine ⟨?_, by rw [if_neg (by omega)]⟩
    rcases hlayout with ⟨rfl, hchain⟩ | ⟨hchain, hback, ⟨first, hfirst, hle⟩, hside⟩
    · exact absurd hchain.le hrw
    · refine ⟨front, back ++ [⟨w, data⟩], (List.append_assoc ..).symm, ?_, .inr ⟨hchain,
        hback.concat (Nat.le_refl _) (Nat.le_refl _), ?_, .inr (by omega)⟩⟩
      · have := hchain.le
        omega
      · exact ⟨first, by rw [List.head?_append, Option.mem_def.mp hfirst]; rfl, hle⟩

/-! ### The invariant -/

/-- `rpos` entries have been given up by the receiver; those taken in since have their traces in `front` and
`back`. -/
structure Ring (cfg : Config) (s : State) (rpos : Nat) (front back : List (Block UInt8)) : Prop where
  entryRpos_eq : s.entryRpos = rpos % cfg.entryCnt
  entryWpos_eq : s.entryWpos = s.accepted.length % cfg.entryCnt
  rpos_le : rpos ≤ s.accepted.length
  free : s.accepted.length < rpos + cfg.entryCnt
  unread : s.accepted.drop rpos = (front ++ back).map Block.data
  entry : ∀ i ≤ (front ++ back).length,
    s.trcEntryList ((rpos + i) % cfg.entryCnt) = endOf s.bufRpos ((front ++ back).take i)
  readable : Readable s.bufRpos (front ++ back)
  layout : Layout cfg.bufSize s.bufRpos s.bufWpos front back
  stored : ∀ b ∈ front ++ back, b.Stored s.trcBuf

/-- How far the receiver has come. -/
def Receives (cfg : Config) (s : State) (rpos : Nat) (blocks : List (Block UInt8)) : Receiver → Prop
  | .idle => s.output = s.accepted.take rpos
  | .begun => s.output = s.accepted.take rpos
  | .reading entryRpos entryWpos traceStart => ∃ j k, j ≤ k ∧ k ≤ blocks.length ∧
      entryRpos = (rpos + j) % cfg.entryCnt ∧ entryWpos = (rpos + k) % cfg.entryCnt ∧
      traceStart = endOf s.bufRpos (blocks.take j) ∧ s.output = s.accepted.take (rpos + j)

def Inv (cfg : Config) (s : State) : Prop :=
  ∃ rpos front back, Ring cfg s rpos front back ∧ Receives cfg s rpos (front ++ back) s.receiver

theorem nextEntry_mod (cfg : Config) (k : Nat) :
    State.nextEntry cfg (k % cfg.entryCnt) = (k + 1) % cfg.entryCnt := by
  have hlt := Nat.mod_lt k cfg.entryCnt_pos
  rw [succ_mod cfg.entryCnt_pos, State.nextEntry]
  split <;> omega

namespace Ring

variable {rpos : Nat}

theorem length_blocks (h : Ring cfg s rpos front back) :
    (front ++ back).length = s.accepted.length - rpos := by
  rw [← List.length_map Block.data, ← h.unread, List.length_drop]

theorem length_lt (h : Ring cfg s rpos front back) : (front ++ back).length < cfg.entryCnt := by
  have := h.length_blocks
  have := h.rpos_le
  have := h.free
  omega

theorem entryAvail_eq (h : Ring cfg s rpos front back) :
    s.entryAvail cfg = cfg.entryCnt - (front ++ back).length - 1 := by
  have hlt := Nat.mod_lt rpos cfg.entryCnt_pos
  have hdist := mod_sub_mod h.rpos_le h.free
  rw [h.length_blocks, ← hdist, State.entryAvail, h.entryRpos_eq, h.entryWpos_eq]
  split <;> omega

theorem empty_iff (h : Ring cfg s rpos front back) : s.entryRpos = s.entryWpos ↔ front ++ back = [] := by
  have hlen := h.length_blocks
  have hle := h.rpos_le
  have hlt := h.length_lt
  rw [h.entryRpos_eq, h.entryWpos_eq, ← List.length_eq_zero_iff,
    show s.accepted.length = rpos + (front ++ back).length by omega]
  exact (show (rpos + 0) % cfg.entryCnt = _ ↔ _ from mod_eq_mod_iff cfg.entryCnt_pos hlt).trans eq_comm

theorem bufWpos_eq (h : Ring cfg s rpos front back) : s.bufWpos = endOf s.bufRpos (front ++ back) := by
  have hlast := h.entry _ (Nat.le_refl _)
  rw [List.take_length] at hlast
  rw [← hlast, State.bufWpos, h.entryWpos_eq, h.length_blocks, Nat.add_sub_cancel' h.rpos_le]

theorem fin_getElem (h : Ring cfg s rpos front back) {i : Nat} (hi : i < (front ++ back).length) :
    s.trcEntryList ((rpos + (i + 1)) % cfg.entryCnt) = (front ++ back)[i].fin := by
  rw [h.entry (i + 1) hi, endOf_take_succ hi]

theorem unread_getElem (h : Ring cfg s rpos front back) {i : Nat} (hi : i < (front ++ back).length) :
    s.accepted.take (rpos + (i + 1)) = s.accepted.take (rpos + i) ++ [(front ++ back)[i].data] := by
  have hget : s.accepted[rpos + i]? = some (front ++ back)[i].data := by
    rw [← List.getElem?_drop, h.unread, List.getElem?_map, List.getElem?_eq_getElem hi, Option.map_some]
  rw [← Nat.add_assoc, List.take_add_one, hget, Option.toList_some]

end Ring

theorem inv_opened (cfg : Config) : Inv cfg .opened := by
  refine ⟨0, [], [], ⟨(Nat.zero_mod _).symm, (Nat.zero_mod _).symm, Nat.le_refl 0, ?_, rfl, ?_, trivial, ?_, ?_⟩,
    rfl⟩
  · exact Nat.lt_of_lt_of_eq cfg.entryCnt_pos (Nat.zero_add _).symm
  · intro i _
    rw [List.append_nil, List.take_nil]
    rfl
  · exact ⟨Nat.zero_le _, .inl ⟨rfl, Nat.le_refl 0⟩⟩
  · intro b hb
    cases hb

/-! ### A trace is output -/

def State.accept (cfg : Config) (s : State) (buf : List UInt8) : State :=
  { s with
    trcBuf := write s.trcBuf (s.place cfg buf.length).1 buf
    trcEntryList := Function.update s.trcEntryList (State.nextEntry cfg s.entryWpos)
      ((s.place cfg buf.length).1 + buf.length)
    entryWpos := State.nextEntry cfg s.entryWpos
    accepted := s.accepted ++ [buf] }

theorem rmtTrcOutputHandler_eq (cfg : Config) (s : State) (buf : List UInt8) :
    s.rmtTrcOutputHandler cfg buf =
      if buf.length = 0 then s else if s.Accepts cfg buf then s.accept cfg buf else s.discard := by
  rw [State.rmtTrcOutputHandler]
  by_cases hlen : buf.length = 0
  · rw [if_pos hlen, if_pos hlen]
  rw [if_neg hlen, if_neg hlen]
  by_cases havail : s.entryAvail cfg < 1
  · rw [if_pos havail, if_neg fun h => absurd h.2.1 (Nat.not_le.mpr havail)]
  rw [if_neg havail]
  by_cases hroom : (s.place cfg buf.length).2 < buf.length
  · rw [if_pos hroom, if_neg fun h => absurd h.2.2 (Nat.not_le.mpr hroom)]
  · rw [if_neg hroom, if_pos ⟨hlen, Nat.not_lt.mp havail, Nat.not_lt.mp hroom⟩]
    rfl

section Accept

variable {rpos : Nat}

theorem Ring.nextEntry_eq (h : Ring cfg s rpos front back) :
    State.nextEntry cfg s.entryWpos = (rpos + ((front ++ back).length + 1)) % cfg.entryCnt := by
  have hle := h.rpos_le
  have hlen := h.length_blocks
  rw [h.entryWpos_eq, nextEntry_mod]
  congr 1
  omega

theorem Ring.entry_accept (h : Ring cfg s rpos front back) (haccepts : s.Accepts cfg buf) {i : Nat}
    (hi : i ≤ (front ++ back).length) :
    (s.accept cfg buf).trcEntryList ((rpos + i) % cfg.entryCnt) =
      s.trcEntryList ((rpos + i) % cfg.entryCnt) := by
  have havail := haccepts.2.1
  rw [h.entryAvail_eq] at havail
  refine Function.update_of_ne ?_ ..
  rw [h.nextEntry_eq, ne_eq, mod_eq_mod_iff (by omega) (by omega)]
  omega

theorem Ring.bufRpos_accept (h : Ring cfg s rpos front back) (haccepts : s.Accepts cfg buf) :
    (s.accept cfg buf).bufRpos = s.bufRpos := by
  have hfirst := h.entry_accept haccepts (Nat.zero_le _)
  rw [Nat.add_zero, ← h.entryRpos_eq] at hfirst
  exact hfirst

theorem State.bufWpos_accept (cfg : Config) (s : State) (buf : List UInt8) :
    (s.accept cfg buf).bufWpos = (s.place cfg buf.length).1 + buf.length := Function.update_self ..

theorem Ring.notTakenForEmpty (h : Ring cfg s rpos front back) (haccepts : s.Accepts cfg buf)
    (hcond : NotTakenForEmpty cfg s (.output buf)) :
    ∀ b ∈ (front ++ back).head?, ¬ (s.bufWpos = s.bufRpos ∧ s.bufRpos < b.fin) ∧
      ¬ (b.fin ≤ s.bufRpos ∧ s.bufRpos ≤ s.bufWpos ∧ cfg.bufSize - s.bufWpos < buf.length) := by
  intro b hb
  obtain ⟨blocks, hblocks⟩ := List.head?_eq_some_iff.mp hb
  have hpos : 0 < (front ++ back).length := by
    rw [hblocks]
    exact Nat.succ_pos _
  have hfirst : s.trcEntryList (State.nextEntry cfg s.entryRpos) = b.fin := by
    rw [h.entryRpos_eq, nextEntry_mod]
    refine (h.fin_getElem hpos).trans ?_
    simp only [hblocks, List.getElem_cons_zero]
  have hne : s.entryRpos ≠ s.entryWpos := by
    rw [ne_eq, h.empty_iff, hblocks]
    exact List.cons_ne_nil _ _
  rw [← hfirst]
  exact hcond hne haccepts

theorem Ring.accept (h : Ring cfg s rpos front back) (haccepts : s.Accepts cfg buf)
    (hcond : NotTakenForEmpty cfg s (.output buf)) :
    ∃ front' back', front' ++ back' = front ++ back ++ [⟨(s.place cfg buf.length).1, buf⟩] ∧
      Ring cfg (s.accept cfg buf) rpos front' back' := by
  have hne : buf ≠ [] := fun hnil => haccepts.1 (by rw [hnil, List.length_nil])
  have hlen := h.length_blocks
  have hle := h.rpos_le
  have havail := haccepts.2.1
  rw [h.entryAvail_eq] at havail
  obtain ⟨⟨front', back', hblocks, hlayout⟩, hpos⟩ :=
    h.layout.place h.readable hne
      (show _ = ((s.place cfg buf.length).1, (s.place cfg buf.length).2) from rfl) haccepts.2.2
      (h.notTakenForEmpty haccepts hcond)
  refine ⟨front', back', hblocks, ⟨h.entryRpos_eq, ?_, ?_, ?_, ?_, ?_, ?_, ?_, ?_⟩⟩
  · change State.nextEntry cfg s.entryWpos = _
    rw [h.entryWpos_eq, nextEntry_mod]
    simp only [State.accept, List.length_append, List.length_singleton]
  · simp only [State.accept, List.length_append]
    omega
  · simp only [State.accept, List.length_append, List.length_singleton]
    omega
  · change (s.accepted ++ [buf]).drop rpos = _
    rw [List.drop_append_of_le_length hle, h.unread, hblocks, List.map_append, List.map_append, List.map_append]
    rfl
  · intro i hi
    rw [h.bufRpos_accept haccepts, hblocks]
    rw [hblocks, List.length_append, List.length_singleton] at hi
    rcases Nat.lt_succ_iff_lt_or_eq.mp (Nat.lt_succ_of_le hi) with hold | rfl
    · rw [h.entry_accept haccepts (by omega), h.entry i (by omega),
        List.take_append_of_le_length (Nat.le_of_lt_succ hold)]
    · rw [← h.nextEntry_eq, List.take_of_length_le (by rw [List.length_append, List.length_singleton]),
        endOf_append]
      exact State.bufWpos_accept cfg s buf
  · rw [hblocks, h.bufRpos_accept haccepts, readable_append, ← h.bufWpos_eq]
    exact ⟨h.readable, hpos, hne, trivial⟩
  · rw [h.bufRpos_accept haccepts, State.bufWpos_accept]
    exact hlayout
  · intro b hb
    rw [hblocks] at hb
    have hapart := hlayout.pairwise
    rw [hblocks, List.pairwise_append] at hapart
    rcases List.mem_append.mp hb with hold | hnew
    · exact (h.stored b hold).write (hapart.2.2 b hold _ List.mem_cons_self)
    · obtain rfl := List.mem_singleton.mp hnew
      exact Block.stored_write s.trcBuf ⟨_, buf⟩

/-- More traces behind those it knows leave the receiver as far as it is. -/
theorem Receives.accept (h : Ring cfg s rpos front back) (haccepts : s.Accepts cfg buf) {blocks : List (Block UInt8)}
    {receiver : Receiver} (hreceives : Receives cfg s rpos (front ++ back) receiver) :
    Receives cfg (s.accept cfg buf) rpos (front ++ back ++ blocks) receiver := by
  have hle := h.rpos_le
  have hlen := h.length_blocks
  cases receiver with
  | idle => exact hreceives.trans (List.take_append_of_le_length hle).symm
  | begun => exact hreceives.trans (List.take_append_of_le_length hle).symm
  | reading entryRpos entryWpos traceStart =>
      obtain ⟨j, k, hjk, hk, hrpos, hwpos, hstart, houtput⟩ := hreceives
      refine ⟨j, k, hjk, ?_, hrpos, hwpos, ?_, ?_⟩
      · rw [List.length_append]
        omega
      · rw [h.bufRpos_accept haccepts, List.take_append_of_le_length (Nat.le_trans hjk hk), hstart]
      · exact houtput.trans (List.take_append_of_le_length (by omega)).symm

end Accept

theorem Inv.output (h : Inv cfg s) (hcond : NotTakenForEmpty cfg s (.output buf)) :
    Inv cfg (s.rmtTrcOutputHandler cfg buf) := by
  rw [rmtTrcOutputHandler_eq]
  split
  · exact h
  obtain ⟨rpos, front, back, hring, hreceives⟩ := h
  split
  case isTrue haccepts =>
    obtain ⟨front', back', hblocks, hring'⟩ := hring.accept haccepts hcond
    refine ⟨rpos, front', back', hring', ?_⟩
    rw [hblocks]
    exact Receives.accept hring haccepts hreceives
  case isFalse =>
    exact ⟨rpos, front, back, ⟨hring.entryRpos_eq, hring.entryWpos_eq, hring.rpos_le, hring.free, hring.unread,
      hring.entry, hring.readable, hring.layout, hring.stored⟩, hreceives⟩

/-! ### The receiver goes on -/

section Receiver

variable {rpos j k entryRpos entryWpos traceStart : Nat}

theorem Ring.frame (h : Ring cfg s rpos front back) (discardCntR : UInt16) (receiver : Receiver)
    (output : List (List UInt8)) :
    Ring cfg { s with discardCntR := discardCntR, receiver := receiver, output := output } rpos front back :=
  ⟨h.entryRpos_eq, h.entryWpos_eq, h.rpos_le, h.free, h.unread, h.entry, h.readable, h.layout, h.stored⟩

theorem Ring.giveUp (h : Ring cfg s rpos front back) (hj : j ≤ (front ++ back).length) :
    ∃ front' back', front' ++ back' = (front ++ back).drop j ∧
      Ring cfg { s with receiver := .idle, entryRpos := (rpos + j) % cfg.entryCnt } (rpos + j) front' back' := by
  have hlen := h.length_blocks
  have hle := h.rpos_le
  have hfree := h.free
  obtain ⟨front', back', hblocks, hlayout⟩ := h.layout.drop hj
  have hbufRpos : s.trcEntryList ((rpos + j) % cfg.entryCnt) = endOf s.bufRpos ((front ++ back).take j) :=
    h.entry j hj
  refine ⟨front', back', hblocks, ⟨rfl, h.entryWpos_eq, ?_, ?_, ?_, ?_, ?_, ?_, ?_⟩⟩
  · change rpos + j ≤ s.accepted.length
    omega
  · change s.accepted.length < rpos + j + cfg.entryCnt
    omega
  · change s.accepted.drop (rpos + j) = _
    rw [hblocks, ← List.drop_drop, h.unread, List.map_drop]
  · intro i hi
    rw [hblocks, List.length_drop] at hi
    change s.trcEntryList _ = endOf (s.trcEntryList ((rpos + j) % cfg.entryCnt)) _
    rw [hbufRpos, hblocks, ← endOf_append, ← List.take_add, Nat.add_assoc]
    exact h.entry (j + i) (by omega)
  · change Readable (s.trcEntryList ((rpos + j) % cfg.entryCnt)) _
    have hreadable := h.readable
    rw [← List.take_append_drop j (front ++ back), readable_append] at hreadable
    rw [hbufRpos, hblocks]
    exact hreadable.2
  · change Layout _ (s.trcEntryList ((rpos + j) % cfg.entryCnt)) s.bufWpos _ _
    rw [hbufRpos]
    exact hlayout
  · intro b hb
    rw [hblocks] at hb
    exact h.stored b (List.mem_of_mem_drop hb)

/-- The receiver finds the next trace where it lies. -/
theorem Ring.outputTrace_eq (h : Ring cfg s rpos front back) (hj : j < (front ++ back).length) :
    s.outputTrace cfg ((rpos + j) % cfg.entryCnt) entryWpos (endOf s.bufRpos ((front ++ back).take j)) =
      { s with
        receiver := .reading ((rpos + (j + 1)) % cfg.entryCnt) entryWpos
          (endOf s.bufRpos ((front ++ back).take (j + 1)))
        output := s.output ++ [(front ++ back)[j].data] } := by
  obtain ⟨hpos, hne⟩ := readable_getElem h.readable hj
  have hsucc : (rpos + (j + 1)) % cfg.entryCnt = _ := succ_mod (k := rpos + j) cfg.entryCnt_pos
  have hstored : read s.trcBuf _ _ = _ := h.stored _ (List.getElem_mem hj)
  have hlen : (front ++ back)[j].fin - (front ++ back)[j].pos = (front ++ back)[j].data.length := by
    rw [Block.fin, Nat.add_sub_cancel_left]
  simp only [State.outputTrace, ← hsucc, h.fin_getElem hj, ← hpos, hlen, endOf_take_succ hj, hstored, ne_eq,
    List.length_eq_zero_iff, hne, not_false_eq_true, if_true]

theorem Inv.rxTrace (h : Inv cfg s) (hreceiver : s.receiver = .reading entryRpos entryWpos traceStart)
    (hmore : entryRpos ≠ entryWpos) :
    Inv cfg (s.outputTrace cfg entryRpos entryWpos traceStart) ∧
      ∃ trace, (s.outputTrace cfg entryRpos entryWpos traceStart).output = s.output ++ [trace] := by
  obtain ⟨rpos, front, back, hring, hreceives⟩ := h
  rw [hreceiver] at hreceives
  obtain ⟨j, k, hjk, hk, rfl, rfl, rfl, houtput⟩ := hreceives
  have hlt : j < k := Nat.lt_of_le_of_ne hjk fun heq => hmore (by rw [heq])
  have hj : j < (front ++ back).length := Nat.lt_of_lt_of_le hlt hk
  rw [hring.outputTrace_eq hj]
  refine ⟨⟨rpos, front, back, hring.frame _ _ _, j + 1, k, hlt, hk, rfl, rfl, rfl, ?_⟩, _, rfl⟩
  rw [hring.unread_getElem hj, ← houtput]

theorem Inv.rxDone (h : Inv cfg s) (hreceiver : s.receiver = .reading entryRpos entryRpos traceStart) :
    Inv cfg { s with receiver := .idle, entryRpos := entryRpos } := by
  obtain ⟨rpos, front, back, hring, hreceives⟩ := h
  rw [hreceiver] at hreceives
  obtain ⟨j, k, hjk, hk, rfl, -, -, houtput⟩ := hreceives
  obtain ⟨front', back', -, hring'⟩ := hring.giveUp (Nat.le_trans hjk hk)
  exact ⟨rpos + j, front', back', hring', houtput⟩

theorem Inv.rxEntries (h : Inv cfg s) (hreceiver : s.receiver = .begun) :
    Inv cfg { s with receiver := .reading s.entryRpos s.entryWpos s.bufRpos } := by
  obtain ⟨rpos, front, back, hring, hreceives⟩ := h
  rw [hreceiver] at hreceives
  refine ⟨rpos, front, back, hring.frame _ _ _, 0, (front ++ back).length, Nat.zero_le _, Nat.le_refl _,
    hring.entryRpos_eq, ?_, ?_, hreceives⟩
  · rw [hring.length_blocks, Nat.add_sub_cancel' hring.rpos_le]
    exact hring.entryWpos_eq
  · rw [List.take_zero]
    rfl

theorem Inv.rxDiscard (h : Inv cfg s) (hreceiver : s.receiver = .idle) :
    Inv cfg { s with receiver := .begun, discardCntR := s.discardCntW } := by
  obtain ⟨rpos, front, back, hring, hreceives⟩ := h
  rw [hreceiver] at hreceives
  exact ⟨rpos, front, back, hring.frame _ _ _, hreceives⟩

end Receiver

/-! ### Every run -/

theorem rxStep_cases {e : Event} (h : step cfg s e = some s') (hrx : ∀ buf, e ≠ .output buf) :
    (s.receiver = .idle ∧ s' = { s with receiver := .begun, discardCntR := s.discardCntW }) ∨
    (s.receiver = .begun ∧ s' = { s with receiver := .reading s.entryRpos s.entryWpos s.bufRpos }) ∨
    (∃ entryRpos entryWpos traceStart, s.receiver = .reading entryRpos entryWpos traceStart ∧
      entryRpos ≠ entryWpos ∧ s' = s.outputTrace cfg entryRpos entryWpos traceStart) ∨
    ∃ entryRpos traceStart, s.receiver = .reading entryRpos entryRpos traceStart ∧
      s' = { s with receiver := .idle, entryRpos := entryRpos } := by
  cases e with
  | output buf => exact absurd rfl (hrx buf)
  | rxDiscard =>
      simp only [step] at h
      split at h
      · exact .inl ⟨‹_›, (Option.some.inj h).symm⟩
      · cases h
  | rxEntries =>
      simp only [step] at h
      split at h
      · exact .inr (.inl ⟨‹_›, (Option.some.inj h).symm⟩)
      · cases h
  | rxTrace =>
      simp only [step] at h
      split at h
      · split at h
        · exact .inr (.inr (.inl ⟨_, _, _, ‹_›, ‹_›, (Option.some.inj h).symm⟩))
        · cases h
      · cases h
  | rxDone =>
      simp only [step] at h
      split at h
      · rename_i hreceiver
        split at h
        case isTrue heq =>
          subst heq
          exact .inr (.inr (.inr ⟨_, _, hreceiver, (Option.some.inj h).symm⟩))
        case isFalse => cases h
      · cases h

theorem Inv.rxStep {e : Event} (h : Inv cfg s) (hstep : step cfg s e = some s') (hrx : ∀ buf, e ≠ .output buf) :
    Inv cfg s' := by
  rcases rxStep_cases hstep hrx with ⟨hidle, rfl⟩ | ⟨hbegun, rfl⟩ | ⟨_, _, _, hreading, hmore, rfl⟩ |
    ⟨_, _, hreading, rfl⟩
  · exact h.rxDiscard hidle
  · exact h.rxEntries hbegun
  · exact (h.rxTrace hreading hmore).1
  · exact h.rxDone hreading

theorem Inv.step {e : Event} (h : Inv cfg s) (hcond : NotTakenForEmpty cfg s e)
    (hstep : RmtTrace.step cfg s e = some s') : Inv cfg s' := by
  cases e with
  | output buf =>
      obtain rfl := Option.some.inj hstep
      exact h.output hcond
  | rxDiscard => exact h.rxStep hstep fun _ heq => by cases heq
  | rxEntries => exact h.rxStep hstep fun _ heq => by cases heq
  | rxTrace => exact h.rxStep hstep fun _ heq => by cases heq
  | rxDone => exact h.rxStep hstep fun _ heq => by cases heq

/-- The traces output on the sending core; an empty one is none. -/
def Event.offered : Event → List (List UInt8)
  | .output buf => if buf.length = 0 then [] else [buf]
  | _ => []

/-- Each trace offered has been taken in, in order, or counted. -/
structure Counted (offered : List (List UInt8)) (s : State) : Prop where
  accepted : s.accepted.Sublist offered
  length : s.accepted.length + s.refused = offered.length
  discardCntW : s.discardCntW = UInt16.ofNat s.refused

theorem Counted.of_same {offered : List (List UInt8)} (h : Counted offered s) (haccepted : s'.accepted = s.accepted)
    (hrefused : s'.refused = s.refused) (hcnt : s'.discardCntW = s.discardCntW) : Counted offered s' := by
  refine ⟨?_, ?_, ?_⟩
  · rw [haccepted]
    exact h.accepted
  · rw [haccepted, hrefused]
    exact h.length
  · rw [hcnt, hrefused]
    exact h.discardCntW

theorem Counted.output {offered : List (List UInt8)} (h : Counted offered s) (buf : List UInt8) :
    Counted (offered ++ (Event.output buf).offered) (s.rmtTrcOutputHandler cfg buf) := by
  have hlength := h.length
  rw [rmtTrcOutputHandler_eq, Event.offered]
  split
  · rw [List.append_nil]
    exact h
  split
  · refine ⟨h.accepted.append (List.Sublist.refl _), ?_, h.discardCntW⟩
    simp only [State.accept, List.length_append]
    omega
  · refine ⟨h.accepted.trans (List.sublist_append_left _ _), ?_, ?_⟩
    · simp only [State.discard, List.length_append, List.length_singleton]
      omega
    · simp only [State.discard, h.discardCntW, UInt16.ofNat_add]
      rfl

theorem Counted.rxStep {offered : List (List UInt8)} {e : Event} (h : Counted offered s)
    (hstep : step cfg s e = some s') (hrx : ∀ buf, e ≠ .output buf) : Counted offered s' := by
  rcases rxStep_cases hstep hrx with ⟨-, rfl⟩ | ⟨-, rfl⟩ | ⟨_, _, _, -, -, rfl⟩ | ⟨_, _, -, rfl⟩
  all_goals exact h.of_same rfl rfl rfl

theorem Counted.step {offered : List (List UInt8)} {e : Event} (h : Counted offered s)
    (hstep : RmtTrace.step cfg s e = some s') : Counted (offered ++ e.offered) s' := by
  cases e with
  | output buf =>
      obtain rfl := Option.some.inj hstep
      exact h.output buf
  | rxDiscard => exact (List.append_nil offered).symm ▸ h.rxStep hstep fun _ heq => by cases heq
  | rxEntries => exact (List.append_nil offered).symm ▸ h.rxStep hstep fun _ heq => by cases heq
  | rxTrace => exact (List.append_nil offered).symm ▸ h.rxStep hstep fun _ heq => by cases heq
  | rxDone => exact (List.append_nil offered).symm ▸ h.rxStep hstep fun _ heq => by cases heq

theorem Counted.run {offered : List (List UInt8)} {events : List Event} {t : State} (h : Counted offered s)
    (hrun : Best1307.run (RmtTrace.step cfg) s events = some t) :
    Counted (offered ++ events.flatMap Event.offered) t := by
  induction events generalizing s offered with
  | nil =>
      obtain rfl := Option.some.inj hrun
      rw [List.flatMap_nil, List.append_nil]
      exact h
  | cons e events ih =>
      obtain ⟨s₁, hs₁, hrest⟩ := (run_cons_eq_some _).mp hrun
      rw [List.flatMap_cons, ← List.append_assoc]
      exact ih (h.step hs₁) hrest

/-! ### The receiver catches up -/

theorem Inv.output_eq (h : Inv cfg s) : ∃ n ≤ s.accepted.length, s.output = s.accepted.take n ∧
    ∃ blocks : List (Block UInt8), blocks.map Block.data = s.accepted.drop n ∧
      blocks.Pairwise Block.Apart ∧ ∀ b ∈ blocks, b.fin ≤ cfg.bufSize ∧ b.Stored s.trcBuf := by
  obtain ⟨rpos, front, back, hring, hreceives⟩ := h
  have hle := hring.rpos_le
  have hlen := hring.length_blocks
  have hread : ∃ j ≤ (front ++ back).length, s.output = s.accepted.take (rpos + j) := by
    cases hreceiver : s.receiver with
    | idle => exact ⟨0, Nat.zero_le _, by rw [hreceiver] at hreceives; exact hreceives⟩
    | begun => exact ⟨0, Nat.zero_le _, by rw [hreceiver] at hreceives; exact hreceives⟩
    | reading entryRpos entryWpos traceStart =>
        rw [hreceiver] at hreceives
        obtain ⟨j, k, hjk, hk, -, -, -, houtput⟩ := hreceives
        exact ⟨j, Nat.le_trans hjk hk, houtput⟩
  obtain ⟨j, hj, houtput⟩ := hread
  refine ⟨rpos + j, by omega, houtput, (front ++ back).drop j, ?_, ?_, ?_⟩
  · rw [← List.drop_drop, hring.unread, List.map_drop]
  · exact hring.layout.pairwise.sublist (List.drop_sublist _ _)
  · intro b hb
    exact ⟨hring.layout.fin_le (List.mem_of_mem_drop hb), hring.stored b (List.mem_of_mem_drop hb)⟩

def IsReceiver (_ : State) : Event → Prop
  | .output _ => False
  | _ => True

theorem IsReceiver.ne_output {e : Event} (h : IsReceiver s e) : ∀ buf, e ≠ .output buf := by
  rintro buf rfl
  exact h

def Receiver.phase : Receiver → Nat
  | .idle => 2
  | .begun => 1
  | .reading entryRpos entryWpos _ => if entryRpos = entryWpos then 3 else 0

theorem Receiver.phase_le (receiver : Receiver) : receiver.phase ≤ 3 := by
  cases receiver with
  | idle => exact Nat.le_succ 2
  | begun => exact Nat.le_add_right 1 2
  | reading entryRpos entryWpos traceStart =>
      rw [phase]
      split <;> omega

def State.rank (s : State) : Nat := 4 * (s.accepted.length - s.output.length) + s.receiver.phase

theorem rx_enabled (s : State) : ∃ e s', IsReceiver s e ∧ step cfg s e = some s' := by
  cases hreceiver : s.receiver with
  | idle => exact ⟨.rxDiscard, _, trivial, by simp only [step, hreceiver]; rfl⟩
  | begun => exact ⟨.rxEntries, _, trivial, by simp only [step, hreceiver]; rfl⟩
  | reading entryRpos entryWpos traceStart =>
      by_cases hmore : entryRpos = entryWpos
      · exact ⟨.rxDone, _, trivial, by simp only [step, hreceiver]; exact if_pos hmore⟩
      · exact ⟨.rxTrace, _, trivial, by simp only [step, hreceiver]; exact if_pos hmore⟩

theorem Inv.rxStep_rank {e : Event} (h : Inv cfg s) (hstep : RmtTrace.step cfg s e = some s')
    (hrx : ∀ buf, e ≠ .output buf) (hbehind : s.output ≠ s.accepted) : s'.rank < s.rank ∧ s'.accepted = s.accepted := by
  rcases rxStep_cases hstep hrx with ⟨hidle, rfl⟩ | ⟨hbegun, rfl⟩ | ⟨r, w, start, hreading, hmore, rfl⟩ |
    ⟨_, _, hreading, rfl⟩
  · refine ⟨?_, rfl⟩
    simp only [State.rank, hidle, Receiver.phase]
    omega
  · obtain ⟨rpos, front, back, hring, hreceives⟩ := h
    have hunread : s.entryRpos ≠ s.entryWpos := by
      rw [ne_eq, hring.empty_iff]
      intro hnil
      have hlen := hring.length_blocks
      rw [hnil, List.length_nil] at hlen
      rw [hbegun] at hreceives
      exact hbehind (hreceives.trans (List.take_of_length_le (by omega)))
    refine ⟨?_, rfl⟩
    simp only [State.rank, hbegun, Receiver.phase, if_neg hunread]
    omega
  · obtain ⟨hinv, trace, houtput⟩ := h.rxTrace hreading hmore
    obtain ⟨n, hn, hnext, -⟩ := hinv.output_eq
    have hlen := congrArg List.length houtput
    have hlen' := congrArg List.length hnext
    rw [List.length_append, List.length_singleton] at hlen
    rw [List.length_take] at hlen'
    have haccepted : (s.outputTrace cfg r w start).accepted = s.accepted := rfl
    rw [haccepted] at hn hlen'
    refine ⟨?_, rfl⟩
    have := (s.outputTrace cfg r w start).receiver.phase_le
    rw [State.rank, State.rank, haccepted]
    omega
  · refine ⟨?_, rfl⟩
    simp only [State.rank, hreading, Receiver.phase, if_true]
    omega

theorem Inv.catchesUp (h : Inv cfg s) :
    Inevitable (RmtTrace.step cfg) IsReceiver (fun t => t.output = s.accepted) s := by
  have hlower : ∀ t e t', (Inv cfg t ∧ t.accepted = s.accepted) → ¬ t.output = s.accepted → IsReceiver t e →
      RmtTrace.step cfg t e = some t' → (Inv cfg t' ∧ t'.accepted = s.accepted) ∧ t'.rank < t.rank := by
    intro t e t' ⟨hinv, haccepted⟩ hbehind hrx hstep
    rw [← haccepted] at hbehind
    obtain ⟨hlower, hsame⟩ := hinv.rxStep_rank hstep hrx.ne_output hbehind
    exact ⟨⟨hinv.rxStep hstep hrx.ne_output, hsame.trans haccepted⟩, hlower⟩
  exact Inevitable.of_rank State.rank (fun t _ _ => rx_enabled t) hlower ⟨h, rfl⟩

/-- The traces taken in come out in order with their bytes, those not yet output lie untouched in the buffer,
and the others are counted, as long as no unread trace is taken for none. -/
theorem trace_delivers {events : List Event} {t : State}
    (halong : Along (step cfg) (NotTakenForEmpty cfg) .opened events)
    (hrun : run (step cfg) .opened events = some t) :
    t.output <+: t.accepted ∧
    (∃ blocks : List (Block UInt8), t.output ++ blocks.map Block.data = t.accepted ∧
      blocks.Pairwise Block.Apart ∧ ∀ b ∈ blocks, b.fin ≤ cfg.bufSize ∧ b.Stored t.trcBuf) ∧
    Inevitable (step cfg) IsReceiver (fun u => u.output = t.accepted) t ∧
    t.accepted.Sublist (events.flatMap Event.offered) ∧
    t.accepted.length + t.refused = (events.flatMap Event.offered).length ∧
    t.discardCntW = UInt16.ofNat t.refused := by
  have hinv : Inv cfg t := run_invariant_along (Inv cfg) (fun s e s' hs hcond => hs.step hcond) halong
    (inv_opened cfg) hrun
  have hcounted := Counted.run ⟨List.Sublist.refl [], rfl, rfl⟩ hrun
  obtain ⟨n, -, houtput, blocks, hblocks, hapart, hstored⟩ := hinv.output_eq
  refine ⟨?_, ⟨blocks, ?_, hapart, hstored⟩, hinv.catchesUp, hcounted.accepted, hcounted.length,
    hcounted.discardCntW⟩
  · rw [houtput]
    exact List.take_prefix n t.accepted
  · rw [houtput, hblocks, List.take_append_drop]

theorem trace_delivers_oneOfTwo :
    let events := [Event.output [1, 2, 3], .rxDiscard, .output [4, 5], .rxEntries, .rxTrace]
    ∃ t, run (step defaultConfig) .opened events = some t ∧
    t.output <+: t.accepted ∧
    (∃ blocks : List (Block UInt8), t.output ++ blocks.map Block.data = t.accepted ∧
      blocks.Pairwise Block.Apart ∧ ∀ b ∈ blocks, b.fin ≤ 4096 ∧ b.Stored t.trcBuf) ∧
    Inevitable (step defaultConfig) IsReceiver (fun u => u.output = t.accepted) t ∧
    t.accepted.Sublist (events.flatMap Event.offered) ∧
    t.accepted.length + t.refused = (events.flatMap Event.offered).length ∧
    t.discardCntW = UInt16.ofNat t.refused :=
  ⟨_, rfl, @trace_delivers defaultConfig _ _ (by decide) rfl⟩

/-- The unread trace of 1096 bytes ends at the last cell and the next one at its first: the buffer is full, but
the sender takes it for empty and puts a trace over the first of them. -/
def fullTakenForEmpty : List Event :=
  [.output (List.replicate 3000 1), .rxDiscard, .rxEntries, .output (List.replicate 1096 2), .rxTrace, .rxDone,
    .output (List.replicate 3000 3), .output [9], .rxDiscard, .rxEntries, .rxTrace]

theorem fullTakenForEmpty_overwrites :
    ∃ t, run (step defaultConfig) .opened fullTakenForEmpty = some t ∧ ¬ t.output <+: t.accepted := by
  have hsecond : (run (step defaultConfig) .opened fullTakenForEmpty).map (fun t =>
      ((t.output[1]?).bind List.head?, (t.accepted[1]?).bind List.head?)) = some (some 9, some 2) := by
    decide +kernel
  obtain ⟨t, hrun, ht⟩ := Option.map_eq_some_iff.mp hsecond
  obtain ⟨houtput, haccepted⟩ := Prod.mk.inj ht
  obtain ⟨trace, htrace, hhead⟩ := Option.bind_eq_some_iff.mp houtput
  refine ⟨t, hrun, fun ⟨rest, hprefix⟩ => ?_⟩
  -- a prefix has the same second trace
  have hsame : t.accepted[1]? = some trace := by
    rw [← hprefix, List.getElem?_append_left (List.getElem?_eq_some_iff.mp htrace).1, htrace]
  rw [hsame, Option.bind_some, hhead] at haccepted
  revert haccepted
  decide

end Best1307.RmtTrace
