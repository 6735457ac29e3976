import Mathlib.Algebra.Group.Nat.Defs
import Best1307.TraceRx.Registry

/-!
# The parser of trace commands

`app_trace_rx.c`: a command is a string of the form `[name,args]` or `name:args`. It is copied to a message with a
buffer of fixed length, behind which the buffer holds what was there before, and the parser writes a zero after each of
its parts. The callback that is registered under the name is called with what follows.
-/

namespace Best1307.TraceRx

def appTraceRxCmdBufSize : Nat := 128
def appTraceRxHeadSize : Nat := 4

def appTraceRxHead : UInt8 := 0x5b
def appTraceRxEnd : UInt8 := 0x5d
def appTraceRxSeparator : UInt8 := 0x2c
def appTraceRxColonSeparator : UInt8 := 0x3a
def appTraceRxUsrSeparator : UInt8 := 0x3d

/-! ### The buffer of a message -/

/-- Memory from the beginning of the buffer on -/
abbrev Mem : Type := Nat → UInt8

namespace Mem

variable (mem : Mem)

def read (pos : Nat) : Option UInt8 := if pos < appTraceRxCmdBufSize then some (mem pos) else none

def write (pos : Nat) (x : UInt8) : Option Mem :=
  if pos < appTraceRxCmdBufSize then some (Function.update mem pos x) else none

/-- A loop over so many bytes that breaks off where it finds one of those it looks for: where it ends -/
def scan (stop : UInt8 → Bool) : Nat → Nat → Option Nat
  | 0, pos => some pos
  | count + 1, pos => (mem.read pos).bind fun x => if stop x then some pos else scan stop count (pos + 1)

/-- The zero that is written before such a loop breaks off -/
def terminate (pos limit : Nat) : Option Mem := if pos < limit then mem.write pos 0 else some mem

/-- The string from a position on, of which at most so many bytes are in the buffer -/
def stringFrom : Nat → Nat → Option (List UInt8)
  | 0, _ => none
  | count + 1, pos => if mem pos = 0 then some [] else (stringFrom count (pos + 1)).map (mem pos :: ·)

def string (pos : Nat) : Option (List UInt8) := mem.stringFrom (appTraceRxCmdBufSize - pos) pos

end Mem

/-- `APP_TRACE_RX_MSG` -/
structure Msg where
  buf : Mem
  len : Nat

/-- A message with this string, over what was in the buffer before -/
def Msg.of (received : List UInt8) (stale : Mem) : Msg where
  buf := fun pos => received.getD pos (stale pos)
  len := received.length

/-- `app_trace_rx_process`: what is put in the mailbox, if the string is not dealt with at once and is not too long -/
def appTraceRxProcess (customerHost : Bool) (received : List UInt8) (stale : Mem) : Option Msg :=
  if !customerHost && 10 < received.length &&
      ["auto_test:", "ibrt_test:", "best_test:"].any fun test => test.toUTF8.toList == received.take 10 then
    none
  else if 15 < received.length && "[Speech Tuning,".toUTF8.toList == received.take 15 then none
  else if appTraceRxCmdBufSize < received.length then none
  else some (.of received stale)

/-! ### The parser -/

/-- `APP_TRACE_RX_CFG_T`, with positions in the buffer -/
structure Cfg where
  name : Nat
  buf : Nat
  len : Nat

def isSeparator (x : UInt8) : Bool := x == appTraceRxUsrSeparator || x == appTraceRxSeparator

/-- `app_trace_rx_parse`, with the error it returns -/
def appTraceRxParse (buf : Mem) (bufLen : Nat) : Option (Mem × Except Nat Cfg) :=
  (buf.scan (· == appTraceRxHead) appTraceRxHeadSize 0).bind fun pos =>
  (buf.terminate pos appTraceRxHeadSize).bind fun buf =>
  if pos = appTraceRxHeadSize then some (buf, .error 3)
  else
    let name := pos + 1
    (buf.scan isSeparator (appTraceRxNameSize + appTraceRxHeadSize - name) name).bind fun pos =>
    (buf.terminate pos (appTraceRxNameSize + appTraceRxHeadSize)).bind fun buf =>
    -- the loop ends at `APP_TRACE_RX_NAME_SIZE + APP_TRACE_RX_HEAD_SIZE`
    if pos = appTraceRxNameSize then some (buf, .error 1)
    else
      let args := pos + 1
      (buf.scan (· == appTraceRxEnd) (bufLen - args) args).bind fun pos =>
      (buf.terminate pos bufLen).map fun buf =>
      if pos = bufLen then (buf, .error 2) else (buf, .ok ⟨name, args, pos - args⟩)

/-- The branch of `app_trace_rx_process_impl` for `name:args` -/
def parseColon (buf : Mem) (len : Nat) : Option (Mem × Except Nat Cfg) :=
  (buf.scan (· == appTraceRxColonSeparator) len 0).bind fun separatorPos =>
  (buf.write separatorPos 0).map fun buf =>
  (buf, .ok ⟨0, separatorPos + 1, (len + 2 ^ 32 - (separatorPos + 1)) % 2 ^ 32⟩)

/-- What becomes of a message: an error, or a call of the callback of a place, with what is in the buffer then -/
inductive Outcome (κ : Type*) (roleNum : Nat) where
  | rejected (error : Nat)
  | called (id : Fin roleNum) (callback : κ) (buf : Mem) (args len : Nat)

variable {κ : Type*} {roleNum : Nat}

/-- The end of `app_trace_rx_process_impl` -/
def dispatch (after : Registry κ roleNum → Fin roleNum → List UInt8) (list : Registry κ roleNum)
    (result : Mem × Except Nat Cfg) : Option (Outcome κ roleNum) :=
  match result.2 with
  | .error _ => some (.rejected 2)
  | .ok cfg =>
      (result.1.string cfg.name).map fun name =>
        match list.isInList after name with
        | none => .rejected 3
        | some id =>
            match (list id).callback with
            | none => .rejected 4
            | some callback => .called id callback result.1 cfg.buf cfg.len

/-- `app_trace_rx_process_impl`; there is no outcome where something outside the buffer is read or written. -/
def appTraceRxProcessImpl (after : Registry κ roleNum → Fin roleNum → List UInt8) (list : Registry κ roleNum)
    (msg : Msg) : Option (Outcome κ roleNum) :=
  (msg.buf.write msg.len 0).bind fun buf =>
  (buf.read 0).bind fun first =>
  (if first = appTraceRxHead then appTraceRxParse buf msg.len else parseColon buf msg.len).bind fun result =>
  dispatch after list result

/-! ### The commands -/

inductive Command (name args : List UInt8) : List UInt8 → Prop where
  | brackets (separator : UInt8) (h : isSeparator separator = true) :
      Command name args (appTraceRxHead :: name ++ separator :: args ++ [appTraceRxEnd])
  | colon : Command name args (name ++ appTraceRxColonSeparator :: args)

/-- A callback is called for a command only, with its arguments and their length. -/
def Meets (list : Registry κ roleNum) (received : List UInt8) : Option (Outcome κ roleNum) → Prop
  | none => False
  | some (.rejected _) => True
  | some (.called id callback buf args len) =>
      ∃ argBytes, Command (list id).name argBytes received ∧ (list id).callback = some callback ∧
        len = argBytes.length ∧ len ≤ received.length ∧ ∀ i (h : i < argBytes.length), buf (args + i) = argBytes[i]

/-- The part of a string before its first zero -/
def cString (bytes : List UInt8) : List UInt8 := bytes.takeWhile (· != 0)

section Conditions

variable (after : Registry κ roleNum → Fin roleNum → List UInt8) (list : Registry κ roleNum)

/-- A callback is found under what is before the first zero of these bytes. -/
def Leads (bytes : List UInt8) : Prop :=
  ∃ id, list.isInList after (cString bytes) = some id ∧ (list id).callback.isSome = true

/-- What is found has exactly these bytes as its name. -/
def Names (bytes : List UInt8) : Prop :=
  ∃ id, list.isInList after (cString bytes) = some id ∧ (list id).name = bytes

/-- The bytes from the second on in which a separator is looked for; behind the string and its zero they are old. -/
def nameWindow (received : List UInt8) (stale : Mem) : List UInt8 :=
  (List.range (appTraceRxNameSize + appTraceRxHeadSize - 1)).map fun i =>
    Function.update (Msg.of received stale).buf received.length 0 (i + 1)

/-- A string in brackets, without the first one: no callback is called, or what is called is named before a separator
that lies in the string, and the first closing bracket behind it is the last byte. -/
def BracketsRead (rest window : List UInt8) : Prop :=
  let pos := window.findIdx isSeparator
  let args := rest.drop (pos + 1)
  let argsLen := args.findIdx (· == appTraceRxEnd)
  pos + 1 = appTraceRxNameSize ∨ pos + 1 + argsLen = rest.length ∨
    (Leads after list (rest.take (if pos < window.length then pos else pos + 1 + argsLen)) →
      pos < window.length ∧ pos < rest.length ∧ Names after list (rest.take pos) ∧ pos + 2 + argsLen = rest.length)

/-- A string without a bracket: no callback is called, or what is called is named before a colon. -/
def ColonRead (received : List UInt8) : Prop :=
  let pos := received.findIdx (· == appTraceRxColonSeparator)
  Leads after list (received.take pos) → pos < received.length ∧ Names after list (received.take pos)

/-- The zero behind the string lies in the buffer, and the string is read as a command if it leads to a callback. -/
def ReadAsCommand (received : List UInt8) (stale : Mem) : Prop :=
  received.length < appTraceRxCmdBufSize ∧
    if received.head? = some appTraceRxHead then BracketsRead after list received.tail (nameWindow received stale)
    else ColonRead after list received

end Conditions

section Proofs

variable {after : Registry κ roleNum → Fin roleNum → List UInt8} {list : Registry κ roleNum}
  {received bytes left right : List UInt8} {mem stale : Mem} {pos i : Nat} {x : UInt8}

/-! ### Bytes in memory -/

def Mem.At (mem : Mem) (pos : Nat) (bytes : List UInt8) : Prop := ∀ i (h : i < bytes.length), mem (pos + i) = bytes[i]

theorem Mem.at_nil : mem.At pos [] := fun _ h => absurd h (Nat.not_lt_zero _)

theorem Mem.at_cons : mem.At pos (x :: bytes) ↔ mem pos = x ∧ mem.At (pos + 1) bytes := by
  constructor
  · intro h
    refine ⟨h 0 (Nat.succ_pos _), fun i hi => ?_⟩
    rw [Nat.add_assoc, Nat.add_comm 1]
    exact h (i + 1) (Nat.succ_lt_succ hi)
  · intro h i hi
    cases i with
    | zero => exact h.1
    | succ i =>
      have hpos : pos + (i + 1) = pos + 1 + i := by omega
      exact (congrArg mem hpos).trans (h.2 i (Nat.lt_of_succ_lt_succ hi))

theorem Mem.at_append : mem.At pos (left ++ right) ↔ mem.At pos left ∧ mem.At (pos + left.length) right := by
  induction left generalizing pos with
  | nil => exact (and_iff_right Mem.at_nil).symm
  | cons x left ih => rw [List.cons_append, Mem.at_cons, ih, Mem.at_cons, and_assoc, List.length_cons, Nat.add_assoc,
      Nat.add_comm 1]

theorem Mem.At.update (h : mem.At pos bytes) (hout : i < pos ∨ pos + bytes.length ≤ i) (x : UInt8) :
    Mem.At (Function.update mem i x) pos bytes := by
  intro k hk
  rw [Function.update_of_ne (by omega)]
  exact h k hk

theorem Mem.At.update_end (h : mem.At pos bytes) (x : UInt8) :
    Mem.At (Function.update mem (pos + bytes.length) x) pos (bytes ++ [x]) := by
  rw [Mem.at_append]
  refine ⟨h.update (.inr (Nat.le_refl _)) x, ?_⟩
  rw [Mem.at_cons]
  exact ⟨Function.update_self _ _ _, Mem.at_nil⟩

theorem Mem.At.take (h : mem.At pos bytes) (k : Nat) : mem.At pos (bytes.take k) := by
  rw [← List.take_append_drop k bytes, Mem.at_append] at h
  exact h.1

theorem Mem.At.drop (h : mem.At pos bytes) {k : Nat} (hk : k ≤ bytes.length) : mem.At (pos + k) (bytes.drop k) := by
  rw [← List.take_append_drop k bytes, Mem.at_append, List.length_take, Nat.min_eq_left hk] at h
  exact h.2

theorem Mem.scan_eq (h : mem.At pos bytes) (hin : pos + bytes.length ≤ appTraceRxCmdBufSize) (stop : UInt8 → Bool) :
    mem.scan stop bytes.length pos = some (pos + bytes.findIdx stop) := by
  induction bytes generalizing pos with
  | nil => rfl
  | cons x bytes ih =>
    rw [Mem.at_cons] at h
    rw [List.length_cons] at hin ⊢
    rw [Mem.scan, Mem.read, if_pos (by omega), h.1, Option.bind_some, List.findIdx_cons]
    cases stop x with
    | true => rfl
    | false =>
      rw [if_neg Bool.false_ne_true, ih h.2 (by omega), cond_false]
      exact congrArg some (by omega)

theorem Mem.stringFrom_eq (h : mem.At pos (bytes ++ [0])) {count : Nat} (hcount : bytes.length < count) :
    mem.stringFrom count pos = some (cString bytes) := by
  induction bytes generalizing pos count with
  | nil =>
    obtain ⟨count, rfl⟩ := Nat.exists_eq_add_of_lt hcount
    rw [List.nil_append, Mem.at_cons] at h
    rw [Mem.stringFrom, if_pos h.1]
    rfl
  | cons x bytes ih =>
    cases count with
    | zero => exact absurd hcount (Nat.not_lt_zero _)
    | succ count =>
      rw [List.cons_append, Mem.at_cons] at h
      rw [Mem.stringFrom, cString, h.1]
      by_cases hx : x = 0
      · rw [if_pos hx, List.takeWhile_cons_of_neg (by simpa using hx)]
      · rw [if_neg hx, ih h.2 (Nat.lt_of_succ_lt_succ hcount), List.takeWhile_cons_of_pos (by simpa using hx)]
        rfl

theorem Mem.string_eq (h : mem.At pos (bytes ++ [0])) (hin : pos + bytes.length < appTraceRxCmdBufSize) :
    mem.string pos = some (cString bytes) :=
  Mem.stringFrom_eq h (by omega)

/-! ### What is called -/

theorem command_iff {name args : List UInt8} :
    Command name args received ↔
      (∃ separator, isSeparator separator = true ∧
        received = appTraceRxHead :: name ++ separator :: args ++ [appTraceRxEnd]) ∨
      received = name ++ appTraceRxColonSeparator :: args := by
  constructor
  · intro h
    cases h with
    | brackets separator h => exact .inl ⟨separator, h, rfl⟩
    | colon => exact .inr rfl
  · intro h
    cases h with
    | inl h =>
      obtain ⟨separator, hseparator, rfl⟩ := h
      exact .brackets separator hseparator
    | inr h =>
      rw [h]
      exact .colon

theorem meets_dispatch_iff {cfg : Cfg} (hname : mem.string cfg.name = some (cString bytes)) :
    Meets list received (dispatch after list (mem, .ok cfg)) ↔
      ∀ id, list.isInList after (cString bytes) = some id → (list id).callback.isSome = true →
        ∃ argBytes, Command (list id).name argBytes received ∧ cfg.len = argBytes.length ∧
          cfg.len ≤ received.length ∧ mem.At cfg.buf argBytes := by
  rw [dispatch]
  simp only
  rw [hname, Option.map_some]
  cases hid : list.isInList after (cString bytes) with
  | none => exact iff_of_true trivial fun _ h => by cases h
  | some id =>
    simp only
    cases hcallback : (list id).callback with
    | none =>
      refine iff_of_true trivial fun id' hid' hsome => ?_
      obtain rfl := Option.some.inj hid'
      rw [hcallback] at hsome
      cases hsome
    | some callback =>
      constructor
      · intro h id' hid' _
        obtain rfl := Option.some.inj hid'
        obtain ⟨argBytes, hcommand, -, hlen, hle, hat⟩ := h
        exact ⟨argBytes, hcommand, hlen, hle, hat⟩
      · intro h
        obtain ⟨argBytes, hcommand, hlen, hle, hat⟩ := h id rfl (by rw [hcallback]; rfl)
        exact ⟨argBytes, hcommand, hcallback, hlen, hle, hat⟩

theorem isPrefix_cString (bytes : List UInt8) : cString bytes <+: bytes := List.takeWhile_prefix _

/-! ### Names before a colon -/

theorem parseColon_eq (hmem : mem.At 0 received) (hlen : received.length < appTraceRxCmdBufSize) :
    parseColon mem received.length =
      some (Function.update mem (received.findIdx (· == appTraceRxColonSeparator)) 0,
        .ok ⟨0, received.findIdx (· == appTraceRxColonSeparator) + 1,
          (received.length + 2 ^ 32 - (received.findIdx (· == appTraceRxColonSeparator) + 1)) % 2 ^ 32⟩) := by
  have hle : received.findIdx (· == appTraceRxColonSeparator) ≤ received.length := List.findIdx_le_length
  rw [parseColon, Mem.scan_eq hmem (by omega), Option.bind_some, Nat.zero_add, Mem.write, if_pos (by omega)]
  rfl

theorem meets_colon_iff (hmem : mem.At 0 received) (hlen : received.length < appTraceRxCmdBufSize)
    (hfirst : received.head? ≠ some appTraceRxHead) :
    Meets list received ((parseColon mem received.length).bind (dispatch after list)) ↔
      ColonRead after list received := by
  have hle : received.findIdx (· == appTraceRxColonSeparator) ≤ received.length := List.findIdx_le_length
  have hsize : appTraceRxCmdBufSize = 128 := rfl
  rw [parseColon_eq hmem hlen, Option.bind_some, ColonRead]
  generalize hpos : received.findIdx (· == appTraceRxColonSeparator) = pos at hle
  have htake : (received.take pos).length = pos := by rw [List.length_take, Nat.min_eq_left hle]
  have hat := (hmem.take pos).update_end 0
  rw [htake, Nat.zero_add] at hat
  have hin : 0 + (received.take pos).length < appTraceRxCmdBufSize := by omega
  rw [meets_dispatch_iff (Mem.string_eq hat hin)]
  constructor
  · intro h hleads
    obtain ⟨id, hid, hsome⟩ := hleads
    obtain ⟨argBytes, hcommand, hargs, hargsLe, -⟩ := h id hid hsome
    simp only at hargs hargsLe
    have hlt : pos < received.length := by omega
    refine ⟨hlt, id, hid, ?_⟩
    cases command_iff.mp hcommand with
    | inl hbrackets =>
      obtain ⟨separator, -, hreceived⟩ := hbrackets
      rw [hreceived] at hfirst
      exact absurd rfl hfirst
    | inr hcolon =>
      have hlength := congrArg List.length hcolon
      rw [List.length_append, List.length_cons] at hlength
      have hname : (list id).name.length = pos := by omega
      rw [← hname, hcolon, List.take_left]
  · intro h id hid hsome
    obtain ⟨hlt, id', hid', hname⟩ := h ⟨id, hid, hsome⟩
    obtain rfl := Option.some.inj (hid.symm.trans hid')
    have hcolon : received[pos] = appTraceRxColonSeparator := by
      subst hpos
      exact eq_of_beq (List.findIdx_getElem (w := hlt))
    refine ⟨received.drop (pos + 1), ?_, ?_, ?_, ?_⟩
    · rw [hname, command_iff]
      right
      rw [← hcolon, ← List.drop_eq_getElem_cons hlt, List.take_append_drop]
    · show (received.length + 2 ^ 32 - (pos + 1)) % 2 ^ 32 = _
      rw [List.length_drop]
      omega
    · show (received.length + 2 ^ 32 - (pos + 1)) % 2 ^ 32 ≤ _
      omega
    · have hdrop := hmem.drop (k := pos + 1) hlt
      rw [Nat.zero_add] at hdrop
      exact hdrop.update (.inl (Nat.lt_succ_self pos)) 0

/-! ### Names in brackets -/

/-- The buffer when a loop has ended, with a zero where it broke off -/
def Mem.cut (mem : Mem) (pos limit : Nat) : Mem := if pos < limit then Function.update mem pos 0 else mem

theorem Mem.terminate_eq (mem : Mem) (pos : Nat) {limit : Nat} (hlimit : limit ≤ appTraceRxCmdBufSize) :
    mem.terminate pos limit = some (mem.cut pos limit) := by
  rw [Mem.terminate, Mem.cut]
  split
  · rw [Mem.write, if_pos (by omega)]
  · rfl

theorem Mem.At.cut (h : mem.At pos bytes) {limit : Nat} (hout : i < pos ∨ pos + bytes.length ≤ i) :
    (mem.cut i limit).At pos bytes := by
  rw [Mem.cut]
  split
  · exact h.update hout 0
  · exact h

/-- The buffer when a string in brackets has been read -/
def bracketsMem (mem : Mem) (pos argsLen len : Nat) : Mem :=
  ((mem.cut 0 appTraceRxHeadSize).cut (pos + 1) (appTraceRxNameSize + appTraceRxHeadSize)).cut (pos + 2 + argsLen) len

variable {rest window : List UInt8} {argsLen : Nat}

theorem appTraceRxParse_eq (hhead : mem 0 = appTraceRxHead) (hmem : mem.At 1 rest)
    (hlen : rest.length + 1 < appTraceRxCmdBufSize) (hwindow : mem.At 1 window)
    (hsize : window.length = appTraceRxNameSize + appTraceRxHeadSize - 1) (hpos : window.findIdx isSeparator = pos)
    (hargs : (rest.drop (pos + 1)).findIdx (· == appTraceRxEnd) = argsLen) :
    ∃ buf, appTraceRxParse mem (rest.length + 1) = some
      (if pos + 1 = appTraceRxNameSize then (buf, .error 1)
      else if pos + 1 + argsLen = rest.length then (buf, .error 2)
      else (bracketsMem mem pos argsLen (rest.length + 1), .ok ⟨1, pos + 2, argsLen⟩)) := by
  have hmax : appTraceRxCmdBufSize = 128 := rfl
  have hname : appTraceRxNameSize + appTraceRxHeadSize = 24 := rfl
  have hheadSize : appTraceRxHeadSize = 4 := rfl
  have hposLe : pos ≤ window.length := hpos ▸ List.findIdx_le_length
  have hscanHead : mem.scan (· == appTraceRxHead) appTraceRxHeadSize 0 = some 0 := by
    show (mem.read 0).bind _ = _
    rw [Mem.read, if_pos (by omega), hhead]
    rfl
  have hscanName : (mem.cut 0 appTraceRxHeadSize).scan isSeparator (appTraceRxNameSize + appTraceRxHeadSize - (0 + 1))
      (0 + 1) = some (pos + 1) := by
    rw [Nat.zero_add, ← hsize, Mem.scan_eq (hwindow.cut (.inl Nat.zero_lt_one)) (by omega), hpos, Nat.add_comm]
  have hargsAt : ((mem.cut 0 appTraceRxHeadSize).cut (pos + 1) (appTraceRxNameSize + appTraceRxHeadSize)).At
      (pos + 1 + 1) (rest.drop (pos + 1)) := by
    rcases Nat.lt_or_ge rest.length (pos + 1) with hshort | hlong
    · rw [List.drop_eq_nil_of_le (Nat.le_of_lt hshort)]
      exact Mem.at_nil
    · have hdrop := hmem.drop hlong
      rw [Nat.add_comm 1] at hdrop
      exact (hdrop.cut (.inl (by omega))).cut (.inl (by omega))
  have hscanArgs : ((mem.cut 0 appTraceRxHeadSize).cut (pos + 1) (appTraceRxNameSize + appTraceRxHeadSize)).scan
      (· == appTraceRxEnd) (rest.length + 1 - (pos + 1 + 1)) (pos + 1 + 1) = some (pos + 1 + 1 + argsLen) := by
    have hcount : rest.length + 1 - (pos + 1 + 1) = (rest.drop (pos + 1)).length := by
      rw [List.length_drop]
      omega
    have hdropLen : (rest.drop (pos + 1)).length = rest.length - (pos + 1) := List.length_drop
    rw [hcount, Mem.scan_eq hargsAt (by omega), hargs]
  rw [appTraceRxParse, hscanHead, Option.bind_some, Mem.terminate_eq _ _ (by omega), Option.bind_some,
    if_neg (by omega)]
  simp only
  rw [hscanName, Option.bind_some, Mem.terminate_eq _ _ (by omega), Option.bind_some]
  by_cases herror : pos + 1 = appTraceRxNameSize
  · rw [if_pos herror]
    exact ⟨_, by rw [if_pos herror]⟩
  · rw [if_neg herror, hscanArgs, Option.bind_some, Mem.terminate_eq _ _ (Nat.le_of_lt hlen), Option.map_some]
    refine ⟨bracketsMem mem pos argsLen (rest.length + 1), ?_⟩
    rw [if_neg herror]
    have hsub : pos + 1 + 1 + argsLen - (pos + 1 + 1) = argsLen := Nat.add_sub_cancel_left _ _
    by_cases hend : pos + 1 + argsLen = rest.length
    · rw [if_pos hend, if_pos (by omega)]
      rfl
    · rw [if_neg hend, if_neg (by omega), hsub]
      rfl

/-- The bytes of the name, up to the first zero that the parser writes, or to the one behind the string -/
theorem bracketsMem_string (hmem : mem.At 1 (rest ++ [0])) (hlen : rest.length + 1 < appTraceRxCmdBufSize)
    (hposLe : pos ≤ appTraceRxNameSize + appTraceRxHeadSize - 1) :
    (bracketsMem mem pos argsLen (rest.length + 1)).string 1 =
      some (cString (rest.take (if pos < appTraceRxNameSize + appTraceRxHeadSize - 1 then pos
        else pos + 1 + argsLen))) := by
  have hlimit : appTraceRxNameSize + appTraceRxHeadSize = 24 := rfl
  have hmax : appTraceRxCmdBufSize = 128 := rfl
  have hrest : (rest ++ [0]).length = rest.length + 1 := List.length_append
  have hfirst : (mem.cut 0 appTraceRxHeadSize).At 1 (rest ++ [0]) := hmem.cut (.inl Nat.zero_lt_one)
  -- a zero is written behind a part of the string, or the string ends where its own zero is
  have hcut : ∀ {buf : Mem} {k limit : Nat}, buf.At 1 (rest ++ [0]) → (k < rest.length → k + 1 < limit) →
      (buf.cut (k + 1) limit).At 1 (rest.take k ++ [0]) := by
    intro buf k limit hbuf hcuts
    rcases Nat.lt_trichotomy k rest.length with hlt | heq | hgt
    · have htake : (rest.take k).length = k := by rw [List.length_take, Nat.min_eq_left (Nat.le_of_lt hlt)]
      have hend := ((Mem.at_append.mp hbuf).1.take k).update_end 0
      rw [htake, Nat.add_comm 1] at hend
      rw [Mem.cut, if_pos (hcuts hlt)]
      exact hend
    · rw [heq, List.take_length, Mem.cut]
      split
      · have hend := (Mem.at_append.mp hbuf).1.update_end 0
        rw [Nat.add_comm 1] at hend
        exact hend
      · exact hbuf
    · rw [List.take_of_length_le (Nat.le_of_lt hgt)]
      exact hbuf.cut (.inr (by omega))
  have hin : ∀ k, 1 + (rest.take k).length < appTraceRxCmdBufSize := by
    intro k
    rw [List.length_take]
    omega
  apply Mem.string_eq _ (hin _)
  rw [bracketsMem]
  split
  next hfound =>
    have hname := hcut hfirst fun _ => (show pos + 1 < appTraceRxNameSize + appTraceRxHeadSize by omega)
    refine hname.cut (.inr ?_)
    rw [List.length_append, List.length_take, List.length_singleton]
    omega
  next hnone =>
    have hsame : ∀ buf : Mem, buf.cut (pos + 1) (appTraceRxNameSize + appTraceRxHeadSize) = buf :=
      fun buf => if_neg (by omega)
    have hname := hcut (k := pos + 1 + argsLen) hfirst Nat.succ_lt_succ
    rw [hsame, show pos + 2 + argsLen = pos + 1 + argsLen + 1 by omega]
    exact hname

/-- A name that the string in brackets begins with is not that of a command with a colon. -/
theorem not_colon_of_isPrefix {name args : List UInt8} (hne : name ≠ []) (hname : name <+: rest) :
    appTraceRxHead :: rest ≠ name ++ appTraceRxColonSeparator :: args := by
  intro h
  cases name with
  | nil => exact hne rfl
  | cons x name =>
    obtain ⟨hx, htail⟩ := List.cons.inj h
    have hrest : rest = name ++ appTraceRxColonSeparator :: args := htail
    have hshift : x :: name = name ++ [appTraceRxColonSeparator] := by
      have htake := List.prefix_iff_eq_take.mp hname
      rw [hrest, List.length_cons, List.take_length_add_append] at htake
      exact htake
    have hcount := congrArg (List.count x) hshift
    rw [List.count_cons_self, List.count_append, List.count_singleton, ← hx] at hcount
    exact absurd (Nat.add_left_cancel hcount) (by decide)

theorem meets_brackets_iff (hlist : list.Inv) (hhead : mem 0 = appTraceRxHead) (hmem : mem.At 1 (rest ++ [0]))
    (hlen : rest.length + 1 < appTraceRxCmdBufSize) (hwindow : mem.At 1 window)
    (hsize : window.length = appTraceRxNameSize + appTraceRxHeadSize - 1) :
    Meets list (appTraceRxHead :: rest) ((appTraceRxParse mem (rest.length + 1)).bind (dispatch after list)) ↔
      BracketsRead after list rest window := by
  have hlimit : appTraceRxNameSize + appTraceRxHeadSize = 24 := rfl
  have hnameSize : appTraceRxNameSize = 20 := rfl
  have hrest := (Mem.at_append.mp hmem).1
  rw [BracketsRead]
  generalize hpos : window.findIdx isSeparator = pos
  generalize hargs : (rest.drop (pos + 1)).findIdx (· == appTraceRxEnd) = argsLen
  have hposLe : pos ≤ window.length := hpos ▸ List.findIdx_le_length
  obtain ⟨buf, hparse⟩ := appTraceRxParse_eq hhead hrest hlen hwindow hsize hpos hargs
  rw [hparse, Option.bind_some]
  by_cases herror : pos + 1 = appTraceRxNameSize
  · rw [if_pos herror]
    exact iff_of_true trivial (.inl herror)
  rw [if_neg herror, or_iff_right herror]
  by_cases hend : pos + 1 + argsLen = rest.length
  · rw [if_pos hend]
    exact iff_of_true trivial (.inl hend)
  rw [if_neg hend, or_iff_right hend, hsize, meets_dispatch_iff (bracketsMem_string hmem hlen (hsize ▸ hposLe))]
  constructor
  · intro h hleads
    obtain ⟨id, hid, hsome⟩ := hleads
    obtain ⟨argBytes, hcommand, hargsLen, -, -⟩ := h id hid hsome
    have hpre := (Registry.name_prefix_of_isInList hid).trans (isPrefix_cString _)
    cases command_iff.mp hcommand with
    | inl hbrackets =>
      obtain ⟨separator, hseparator, hreceived⟩ := hbrackets
      have hnameLe := (hlist id).1
      have hsplit : rest = (list id).name ++ separator :: (argBytes ++ [appTraceRxEnd]) := by
        rw [List.cons_append, List.cons_append, List.append_assoc, List.cons_append] at hreceived
        exact (List.cons.inj hreceived).2
      have hlength := congrArg List.length hsplit
      rw [List.length_append, List.length_cons, List.length_append, List.length_singleton] at hlength
      -- the loop has found this separator, or one before it
      have hle : pos ≤ (list id).name.length := by
        by_contra hgt
        rw [hsplit, Mem.at_append, Mem.at_cons] at hrest
        have hin : (list id).name.length < window.length := by omega
        have hnot := List.not_of_lt_findIdx (hpos ▸ Nat.lt_of_not_le hgt)
        rw [← hwindow _ hin, hrest.2.1, hseparator] at hnot
        cases hnot
      have hfound : pos < appTraceRxNameSize + appTraceRxHeadSize - 1 := by omega
      rw [if_pos hfound] at hid hpre
      have hnamePos : (list id).name.length = pos := by
        have hpreLe := hpre.length_le
        rw [List.length_take] at hpreLe
        omega
      simp only at hargsLen
      refine ⟨hfound, by omega, ⟨id, hid, ?_⟩, by omega⟩
      rw [hsplit, ← hnamePos, List.take_left]
    | inr hcolon =>
      refine absurd hcolon (not_colon_of_isPrefix ?_ (hpre.trans (List.take_prefix _ _)))
      intro hempty
      rw [(hlist id).2 hempty] at hsome
      cases hsome
  · intro h id hid hsome
    obtain ⟨hfound, hlt, hnames, hclosed⟩ := h ⟨id, hid, hsome⟩
    obtain ⟨id', hid', hname⟩ := hnames
    rw [if_pos hfound] at hid
    obtain rfl := Option.some.inj (hid.symm.trans hid')
    have hin : pos < window.length := hsize ▸ hfound
    have hseparator : isSeparator rest[pos] = true := by
      rw [← hrest pos hlt, hwindow pos hin]
      subst hpos
      exact List.findIdx_getElem
    have hdropLen : (rest.drop (pos + 1)).length = argsLen + 1 := by
      rw [List.length_drop]
      omega
    have hlast : argsLen < (rest.drop (pos + 1)).length := by omega
    have hclose : (rest.drop (pos + 1))[argsLen] = appTraceRxEnd := by
      subst hargs
      exact eq_of_beq (List.findIdx_getElem (w := hlast))
    have hdrop : rest.drop (pos + 1) = (rest.drop (pos + 1)).take argsLen ++ [appTraceRxEnd] := by
      rw [← hclose, List.take_append_getElem, ← hdropLen, List.take_length]
    have htakeLen : ((rest.drop (pos + 1)).take argsLen).length = argsLen := by
      rw [List.length_take]
      omega
    refine ⟨(rest.drop (pos + 1)).take argsLen, ?_, htakeLen.symm, ?_, ?_⟩
    · rw [hname, command_iff]
      refine .inl ⟨rest[pos], hseparator, ?_⟩
      rw [List.cons_append, List.cons_append, List.append_assoc, List.cons_append, ← hdrop,
        ← List.drop_eq_getElem_cons hlt, List.take_append_drop]
    · show argsLen ≤ rest.length + 1
      omega
    · have hat := (hrest.drop (k := pos + 1) (by omega)).take argsLen
      rw [show 1 + (pos + 1) = pos + 2 by omega] at hat
      refine ((hat.cut (.inl ?_)).cut (.inl ?_)).cut (.inr ?_)
      · omega
      · omega
      · rw [htakeLen]

/-! ### Every string -/

theorem processImpl_meets_iff (hlist : list.Inv) :
    Meets list received (appTraceRxProcessImpl after list (.of received stale)) ↔
      ReadAsCommand after list received stale := by
  rw [appTraceRxProcessImpl, ReadAsCommand, Mem.write]
  split
  next hlen =>
    rw [and_iff_right (show received.length < appTraceRxCmdBufSize from hlen), Option.bind_some]
    have hreceived : (Msg.of received stale).buf.At 0 received := by
      intro i hi
      show received.getD (0 + i) _ = _
      rw [Nat.zero_add, List.getD_eq_getElem?_getD, List.getElem?_eq_getElem hi, Option.getD_some]
    have hmem := hreceived.update_end 0
    rw [Nat.zero_add] at hmem
    cases received with
    | nil =>
      have hread : Mem.read (Function.update (Msg.of [] stale).buf (Msg.of [] stale).len 0) 0 = some 0 := by
        rw [Mem.read, if_pos (by decide)]
        exact congrArg some (Function.update_self _ _ _)
      have hnot : (0 : UInt8) ≠ appTraceRxHead := by decide
      have hnone : ([] : List UInt8).head? ≠ some appTraceRxHead := fun h => by cases h
      rw [hread, Option.bind_some, if_neg hnot, if_neg hnone]
      exact meets_colon_iff (Mem.at_append.mp hmem).1 hlen hnone
    | cons first rest =>
      have hat := Mem.at_cons.mp hmem
      have hread :
          Mem.read (Function.update (Msg.of (first :: rest) stale).buf (Msg.of (first :: rest) stale).len 0) 0 =
            some first := by
        rw [Mem.read, if_pos (by decide)]
        exact congrArg some hat.1
      rw [hread, Option.bind_some]
      by_cases hhead : first = appTraceRxHead
      · subst hhead
        have hsome : (appTraceRxHead :: rest).head? = some appTraceRxHead := rfl
        rw [if_pos rfl, if_pos hsome]
        have hwindowLen : (nameWindow (appTraceRxHead :: rest) stale).length =
            appTraceRxNameSize + appTraceRxHeadSize - 1 := by
          rw [nameWindow, List.length_map, List.length_range]
        refine meets_brackets_iff hlist hat.1 hat.2 hlen ?_ hwindowLen
        intro i hi
        rw [Nat.add_comm 1]
        simp only [nameWindow, List.getElem_map, List.getElem_range]
        rfl
      · have hnot : (first :: rest).head? ≠ some appTraceRxHead := fun h => hhead (Option.some.inj h)
        rw [if_neg hhead, if_neg hnot]
        exact meets_colon_iff (Mem.at_append.mp hmem).1 hlen hnot
  next hlong => exact iff_of_false id fun h => hlong h.1

/-- **Of every string that is put in the mailbox, whatever names are registered, the parser does what it should exactly
if the string is read as a command.** -/
theorem process_meets_iff (after : Registry κ roleNum → Fin roleNum → List UInt8) (calls : List (RegistryCall κ))
    (customerHost : Bool) (received : List UInt8) (stale : Mem) :
    (∀ msg ∈ appTraceRxProcess customerHost received stale,
        Meets (registered after calls) received (appTraceRxProcessImpl after (registered after calls) msg)) ↔
      ((appTraceRxProcess customerHost received stale).isSome →
        ReadAsCommand after (registered after calls) received stale) := by
  have hmeets := @processImpl_meets_iff _ _ after _ received stale (@registered_inv κ roleNum after calls)
  have hnone : ∀ msg ∈ (none : Option Msg), Meets (registered after calls) received
      (appTraceRxProcessImpl after (registered after calls) msg) := fun _ h => by cases h
  rw [appTraceRxProcess]
  split
  · exact iff_of_true hnone fun h => by cases h
  split
  · exact iff_of_true hnone fun h => by cases h
  split
  · exact iff_of_true hnone fun h => by cases h
  constructor
  · exact fun h _ => hmeets.mp (h _ rfl)
  · intro h msg hmsg
    obtain rfl := Option.some.inj hmsg
    exact hmeets.mpr (h rfl)

/-- The string `test` -/
def testName : List UInt8 := [0x74, 0x65, 0x73, 0x74]

/-- Without a colon the length of the arguments is that of the string, less one for a colon that is not there. -/
theorem not_meets_testName :
    ¬ ∀ msg ∈ appTraceRxProcess false testName fun _ => 0,
      Meets (registered (fun _ _ => []) [.register testName (some ())] : Registry Unit 6) testName
        (appTraceRxProcessImpl (fun _ _ => []) (registered (fun _ _ => []) [.register testName (some ())]) msg) := by
  intro h
  obtain ⟨argBytes, -, -, -, hle, -⟩ := h _ rfl
  exact absurd hle (by decide)

end Proofs

end Best1307.TraceRx
