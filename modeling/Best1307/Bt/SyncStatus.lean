import Mathlib.Data.List.InsertIdx
import Mathlib.Data.List.Nodup
import Best1307.Bt.SyncChannels

/-!
# What is reported of a request

Every slot of the array of supervisors also has a flag that says whether the command for the other side has been sent.
It is set in the first slot of the operation, and read for the report after the supervisor is taken away: by then the
slots behind it have come down. A slot that is used again keeps the flag it had.

A request is complete when its supervisor is taken away. Only requests of this side are supervised, so that `initiator`
is set in every slot in use.
-/

namespace Best1307.BtSync

/-- What `statusNotify` is called with, and the request it is called for. -/
structure Report where
  request : Nat
  opCode : Nat
  triStatus : Bool
  triInfoSentStatus : Bool
  deriving DecidableEq, Repr

/-- The flags of the slots, the requests whose command was sent while they were supervised, and the reports so far. -/
structure Status where
  sync : State
  twsCmdSendDone : Nat → Bool
  sent : List Nat
  reports : List Report

inductive StatusEvent
  | sync (e : Event)
  | sendTwsCmdDone (paramLen opCode : Nat)
  deriving DecidableEq, Repr

/-- `app_bt_sync_get_status_instance`, by the slot -/
def State.getStatusInstance (s : State) (opCode : Nat) : Option Nat := s.statusInstance.findIdx? (·.opCode == opCode)

/-- The `memmove`: what is behind the slot comes down, and the last slot in use stays as it is. -/
def moveDown (slots : Nat → Bool) (index supervisorCnt : Nat) : Nat → Bool :=
  fun i => if index ≤ i ∧ i + 1 < supervisorCnt then slots (i + 1) else slots i

namespace Status

def init : Status := ⟨.init, fun _ => false, [], []⟩

variable (cfg : Config) (notifies : Nat → Bool) (s : Status)

/-- `app_bt_sync_handle`; `notifies` says for which operations a `statusNotify` is registered. -/
def handle (msg : Msg) (sync : State) : Status :=
  match s.sync.getStatusInstance msg.opCode with
  | none => { s with sync := sync }
  | some index =>
      let slots := moveDown s.twsCmdSendDone index s.sync.statusInstance.length
      let notified := (s.sync.statusInstance[index]?.filter fun _ => notifies msg.opCode).toList.map fun x =>
        ⟨x.request, msg.opCode, msg.triSrc != invalidChannel, slots index⟩
      { s with sync := sync, twsCmdSendDone := slots, reports := s.reports ++ notified }

/-- `app_bt_sync_send_tws_cmd_done` -/
def sendTwsCmdDone (paramLen opCode : Nat) : Status :=
  if paramLen < triggerInfoSize then s
  else
    match s.sync.getStatusInstance opCode with
    | none => s
    | some index =>
        { s with
          twsCmdSendDone := Function.update s.twsCmdSendDone index true
          sent := (s.sync.statusInstance.filter (·.opCode == opCode)).map (·.request) ++ s.sent }

def step (s : Status) : StatusEvent → Option Status
  | .sync .handle => s.sync.mailbox.head?.bind fun msg => (s.sync.step cfg .handle).map (s.handle notifies msg)
  | .sync e => (s.sync.step cfg e).map fun sync => { s with sync := sync }
  | .sendTwsCmdDone paramLen opCode => some (s.sendTwsCmdDone paramLen opCode)

/-- The flag of every report says whether the command of that request was sent while it was supervised. -/
def Faithful : Prop := ∀ rep ∈ s.reports, rep.triInfoSentStatus = true ↔ rep.request ∈ s.sent

end Status

/-- The request gets a channel here, and a supervisor. -/
def State.AddsFor (s : State) (r : Request) : Prop :=
  s.passes r ∧ r.link.role = .master ∧ (s.findChannel r.opCode).isSome

def State.Adds (s : State) : Event → Prop
  | .enable r => s.AddsFor r
  | .twsCmd c => triggerInfoSize ≤ c.length ∧ c.link.twsExists ∧ c.link.role = .master ∧ c.retriggerOnProcess = false ∧
      s.AddsFor ⟨c.opCode, 0, false, false, c.link⟩
  | _ => False

/-- A supervisor is added in a slot whose flag is clear. One that is taken away and reported is the last, or the next
has the same flag. What is sent is the command of one supervisor only, or the flags of the others are set already. -/
def Status.Clean (notifies : Nat → Bool) (s : Status) : StatusEvent → Prop
  | .sync .handle => ∀ msg ∈ s.sync.mailbox.head?, notifies msg.opCode →
      ∀ index ∈ s.sync.getStatusInstance msg.opCode, index + 1 < s.sync.statusInstance.length →
        s.twsCmdSendDone (index + 1) = s.twsCmdSendDone index
  | .sync e => s.sync.Adds e → s.twsCmdSendDone s.sync.statusInstance.length = false
  | .sendTwsCmdDone paramLen opCode => triggerInfoSize ≤ paramLen → ∀ index ∈ s.sync.getStatusInstance opCode,
      ∀ i < s.sync.statusInstance.length, s.sync.statusInstance[i]?.map (·.opCode) = some opCode →
        i = index ∨ s.twsCmdSendDone i

/-! ### The supervisors as far as reports matter -/

def StatusInfo.entry (x : StatusInfo) : Nat × Nat := (x.opCode, x.request)

def State.entries (s : State) : List (Nat × Nat) := s.statusInstance.map StatusInfo.entry

variable {cfg : Config} {s t : State}

/-- The supervisors stay, or one is added for a new request. -/
def State.Grows (s t : State) (adds : Prop) : Prop :=
  t.entries = s.entries ∧ s.requests ≤ t.requests ∨
    adds ∧ (∃ opCode, t.entries = s.entries ++ [(opCode, s.requests)]) ∧ t.requests = s.requests + 1

theorem enable_grows {r : Request} {b : Bool} (h : s.enable cfg r = some (b, t)) : s.Grows t (s.AddsFor r) := by
  by_cases hmaster : s.passes r ∧ r.link.role = .master
  case neg =>
    obtain ⟨b', hsame⟩ : ∃ b, s.enable cfg r = some (b, s) := State.enable_of_not_master hmaster
    rw [hsame, Option.some.injEq, Prod.mk.injEq] at h
    exact h.2 ▸ .inl ⟨rfl, Nat.le_refl _⟩
  obtain ⟨hpasses, hmaster⟩ := hmaster
  cases hfind : s.findChannel r.opCode with
  | none =>
      rw [State.enable_of_none hpasses hmaster hfind, Option.some.injEq, Prod.mk.injEq] at h
      exact h.2 ▸ .inl ⟨rfl, Nat.le_refl _⟩
  | some i =>
      rw [State.enable_of_some hpasses hmaster hfind] at h
      obtain ⟨u, hadd, hu⟩ := Option.map_eq_some_iff.mp h
      obtain ⟨-, rfl⟩ := Prod.mk.inj hu
      obtain ⟨left, ticks, timer, rfl, hleft⟩ :=
        addWaitingIrqTimeoutSupervision_map (f := StatusInfo.entry) (fun _ _ => rfl) hadd
      exact .inr ⟨⟨hpasses, hmaster, by rw [hfind]; rfl⟩, ⟨r.opCode, hleft⟩, rfl⟩

theorem updateFirst_entries (opCode index : Nat) (l : List StatusInfo) :
    (State.updateFirst opCode index l).map StatusInfo.entry = l.map StatusInfo.entry := by
  induction l with
  | nil => rfl
  | cons x rest ih =>
      rw [State.updateFirst]
      split
      · rfl
      · rw [List.map_cons, List.map_cons, ih]

theorem getAvaliableTriggerChannel_entries (s : State) (opCode : Nat) :
    (s.getAvaliableTriggerChannel opCode).2.entries = s.entries ∧
      s.requests ≤ (s.getAvaliableTriggerChannel opCode).2.requests := by
  rw [State.getAvaliableTriggerChannel]
  split
  · exact ⟨rfl, Nat.le_succ _⟩
  · exact ⟨rfl, Nat.le_refl _⟩

theorem twsCmd_grows {c : SyncCmd} (h : s.twsCmdHandler cfg c = some t) : s.Grows t (s.Adds (.twsCmd c)) := by
  have hsame : s.Grows s (s.Adds (.twsCmd c)) := .inl ⟨rfl, Nat.le_refl _⟩
  rw [State.twsCmdHandler] at h
  split at h
  case isTrue => exact Option.some.inj h ▸ hsame
  case isFalse hpasses =>
    obtain ⟨hlen, htws⟩ := not_or.mp hpasses
    cases hrole : c.link.role with
    | unknown =>
        simp only [hrole, Option.some.injEq] at h
        exact h ▸ hsame
    | slave =>
        simp only [hrole] at h
        split at h
        case isTrue => exact Option.some.inj h ▸ hsame
        case isFalse =>
          obtain ⟨hentries, hrequests⟩ := getAvaliableTriggerChannel_entries s c.opCode
          rw [← Option.some.inj h]
          exact .inl ⟨(updateFirst_entries _ _ _).trans hentries, hrequests⟩
    | master =>
        simp only [hrole] at h
        split at h
        case isTrue => exact Option.some.inj h ▸ hsame
        case isFalse hprocess =>
          obtain ⟨⟨b, u⟩, henable, rfl⟩ := Option.map_eq_some_iff.mp h
          apply (enable_grows henable).imp_right
          intro hadded
          exact ⟨⟨Nat.not_lt.mp hlen, not_not.mp htws, hrole, Bool.eq_false_iff.mpr hprocess, hadded.1⟩, hadded.2⟩

theorem step_grows {e : Event} (he : e ≠ .handle) (h : s.step cfg e = some t) : s.Grows t (s.Adds e) := by
  have hsame : ∀ {u}, u.entries = s.entries → u.requests = s.requests → s.Grows u (s.Adds e) :=
    fun hentries hrequests => .inl ⟨hentries, Nat.le_of_eq hrequests.symm⟩
  cases e with
  | handle => exact absurd rfl he
  | pass ticks => exact Option.some.inj h ▸ hsame rfl rfl
  | enable r =>
      obtain ⟨⟨b, u⟩, henable, rfl⟩ := Option.map_eq_some_iff.mp h
      exact enable_grows henable
  | twsCmd c => exact twsCmd_grows h
  | irq i =>
      rw [State.step] at h
      split at h
      case isFalse => cases h
      case isTrue =>
        obtain ⟨mailbox, hput, -⟩ := mailboxPut_eq cfg (s := { s.release i with
          triggers := Function.update s.triggers (i + channelOffset) false
          interrupted := (s.locTriggerInfo i).request :: s.interrupted })
          ⟨i, (s.locTriggerInfo i).opCode, (s.locTriggerInfo i).request⟩
        rw [State.irqHandler, hput] at h
        exact Option.some.inj h ▸ hsame rfl rfl
  | timeout =>
      rw [State.step] at h
      split at h
      case isFalse => cases h
      case isTrue =>
        obtain ⟨⟨msg, u⟩, hhandler, hput⟩ := Option.map_eq_some_iff.mp h
        have hput : u.mailboxPut cfg msg = t := hput
        obtain ⟨mailbox, hposted, -⟩ := mailboxPut_eq cfg (s := u) msg
        obtain ⟨x, hx, hhandler⟩ := Option.bind_eq_some_iff.mp hhandler
        split at hhandler
        case isFalse => cases hhandler
        case isTrue =>
          obtain ⟨rfl, rfl⟩ := Prod.mk.inj (Option.some.inj hhandler)
          rw [← hput, hposted]
          exact hsame rfl rfl

theorem step_handle {msg : Msg} (hmsg : s.mailbox.head? = some msg) (h : s.step cfg .handle = some t) :
    t.entries = (s.statusInstance.eraseP (·.opCode == msg.opCode)).map StatusInfo.entry ∧
      t.requests = s.requests := by
  obtain ⟨rest, hmailbox⟩ := List.head?_eq_some_iff.mp hmsg
  simp only [State.step, hmailbox] at h
  rw [handleMsg_eq] at h
  obtain ⟨left, ticks, timer, rfl, hleft⟩ :=
    removeWaitingRspTimeoutSupervision_map (f := StatusInfo.entry) (fun _ _ => rfl) h
  exact ⟨hleft, rfl⟩

/-! ### The flags of the slots -/

/-- The flag of each slot in use says whether the command of its request was sent. -/
def Marks (slots : Nat → Bool) (sent : List Nat) (entries : List (Nat × Nat)) : Prop :=
  ∀ i k, entries[i]? = some k → (slots i = true ↔ k.2 ∈ sent)

variable {slots : Nat → Bool} {sent : List Nat} {entries : List (Nat × Nat)} {opCode request index : Nat}

theorem Marks.concat (h : Marks slots sent entries) (hclear : slots entries.length = false) (hnew : request ∉ sent) :
    Marks slots sent (entries ++ [(opCode, request)]) := by
  intro i k hk
  by_cases hi : i < entries.length
  · rw [List.getElem?_append_left hi] at hk
    exact h i k hk
  · have hlt := (List.getElem?_eq_some_iff.mp hk).1
    rw [List.length_append, List.length_singleton] at hlt
    obtain rfl : i = entries.length := by omega
    rw [List.getElem?_concat_length, Option.some.injEq] at hk
    rw [← hk, hclear]
    exact iff_of_false Bool.false_ne_true hnew

theorem Marks.erase (h : Marks slots sent entries) (index : Nat) :
    Marks (moveDown slots index entries.length) sent (entries.eraseIdx index) := by
  intro i k hk
  rw [List.getElem?_eraseIdx] at hk
  rw [moveDown]
  split at hk
  case isTrue hlt =>
    rw [if_neg fun hmoved => Nat.not_le.mpr hlt hmoved.1]
    exact h i k hk
  case isFalse hge =>
    have hlt : i + 1 < entries.length := (List.getElem?_eq_some_iff.mp hk).1
    rw [if_pos ⟨Nat.not_lt.mp hge, hlt⟩]
    exact h (i + 1) k hk

theorem mem_requestsOf (hdistinct : (entries.map Prod.snd).Nodup) {k : Nat × Nat} (hk : k ∈ entries) :
    k.2 ∈ (entries.filter (·.1 == opCode)).map Prod.snd ↔ k.1 = opCode := by
  rw [List.mem_map]
  constructor
  · intro ⟨k', hk', hsame⟩
    obtain ⟨hmem, hop⟩ := List.mem_filter.mp hk'
    rw [← List.inj_on_of_nodup_map hdistinct hmem hk hsame]
    exact beq_iff_eq.mp hop
  · intro hop
    exact ⟨k, List.mem_filter.mpr ⟨hk, beq_iff_eq.mpr hop⟩, rfl⟩

theorem Marks.send (h : Marks slots sent entries) (hdistinct : (entries.map Prod.snd).Nodup)
    (hindex : ∀ k, entries[index]? = some k → k.1 = opCode)
    (hothers : ∀ i k, entries[i]? = some k → k.1 = opCode → i = index ∨ slots i = true) :
    Marks (Function.update slots index true) ((entries.filter (·.1 == opCode)).map Prod.snd ++ sent) entries := by
  intro i k hk
  rw [List.mem_append, mem_requestsOf hdistinct (List.mem_of_getElem? hk)]
  by_cases hi : i = index
  · subst hi
    exact iff_of_true (Function.update_self _ _ _) (.inl (hindex k hk))
  · rw [Function.update_of_ne hi, h i k hk]
    constructor
    · exact .inr
    · intro hsent
      rcases hsent with hop | hold
      · exact (h i k hk).mp ((hothers i k hk hop).resolve_left hi)
      · exact hold

/-! ### What every step keeps -/

/-- The flags are those of the requests in the slots, and the reports are those of requests that are complete. -/
structure Status.Inv (s : Status) : Prop where
  marks : Marks s.twsCmdSendDone s.sent s.sync.entries
  distinct : (s.sync.entries.map Prod.snd).Nodup
  request_lt : ∀ request ∈ s.sync.entries.map Prod.snd, request < s.sync.requests
  sent_lt : ∀ request ∈ s.sent, request < s.sync.requests
  reported : ∀ rep ∈ s.reports, (rep.triInfoSentStatus = true ↔ rep.request ∈ s.sent) ∧
    rep.request < s.sync.requests ∧ rep.request ∉ s.sync.entries.map Prod.snd

theorem Status.inv_init : Status.init.Inv where
  marks _ _ hk := by cases hk
  distinct := List.nodup_nil
  request_lt _ h := absurd h List.not_mem_nil
  sent_lt _ h := absurd h List.not_mem_nil
  reported _ h := absurd h List.not_mem_nil

variable {s s' : Status} {notifies : Nat → Bool}

theorem Status.Inv.grow (hs : s.Inv) {t : State} {adds : Prop} (h : s.sync.Grows t adds)
    (hclean : adds → s.twsCmdSendDone s.sync.statusInstance.length = false) : { s with sync := t }.Inv := by
  rcases h with ⟨hentries, hrequests⟩ | ⟨hadds, ⟨opCode, hentries⟩, hrequests⟩
  · refine ⟨?_, ?_, fun r hr => ?_, fun r hr => (hs.sent_lt r hr).trans_le hrequests, fun rep hrep => ?_⟩
    · rw [hentries]
      exact hs.marks
    · rw [hentries]
      exact hs.distinct
    · rw [hentries] at hr
      exact (hs.request_lt r hr).trans_le hrequests
    · obtain ⟨hright, hlt, hgone⟩ := hs.reported rep hrep
      rw [hentries]
      exact ⟨hright, hlt.trans_le hrequests, hgone⟩
  · have hlength : s.sync.entries.length = s.sync.statusInstance.length := List.length_map _
    have hnew : s.sync.requests ∉ s.sent := fun h => absurd (hs.sent_lt _ h) (Nat.lt_irrefl _)
    have hfresh : s.sync.requests ∉ s.sync.entries.map Prod.snd :=
      fun h => absurd (hs.request_lt _ h) (Nat.lt_irrefl _)
    have hmap : t.entries.map Prod.snd = s.sync.entries.map Prod.snd ++ [s.sync.requests] := by
      rw [hentries, List.map_append]
      rfl
    refine ⟨?_, ?_, fun r hr => ?_, fun r hr => ?_, fun rep hrep => ?_⟩
    · rw [hentries]
      exact hs.marks.concat (hlength ▸ hclean hadds) hnew
    · rw [hmap]
      exact List.nodup_append.mpr ⟨hs.distinct, List.nodup_singleton _, fun a ha b hb hsame =>
        hfresh (List.mem_singleton.mp hb ▸ hsame ▸ ha)⟩
    · rw [hmap] at hr
      rw [hrequests]
      rcases List.mem_append.mp hr with hold | hadded
      · exact Nat.lt_succ_of_lt (hs.request_lt r hold)
      · rw [List.mem_singleton.mp hadded]
        exact Nat.lt_succ_self _
    · rw [hrequests]
      exact Nat.lt_succ_of_lt (hs.sent_lt r hr)
    · obtain ⟨hright, hlt, hgone⟩ := hs.reported rep hrep
      refine ⟨hright, hrequests ▸ Nat.lt_succ_of_lt hlt, ?_⟩
      rw [hmap]
      intro hmem
      rcases List.mem_append.mp hmem with hold | hadded
      · exact hgone hold
      · rw [List.mem_singleton.mp hadded] at hlt
        exact Nat.lt_irrefl _ hlt

theorem request_not_mem_eraseIdx (h : (entries.map Prod.snd).Nodup) {k : Nat × Nat} (hk : entries[index]? = some k) :
    k.2 ∉ (entries.eraseIdx index).map Prod.snd := by
  intro hmem
  obtain ⟨k', hk', hsame⟩ := List.mem_map.mp hmem
  obtain ⟨i, hi, hget⟩ := List.mem_eraseIdx_iff_getElem?.mp hk'
  have hboth : (entries.map Prod.snd)[i]? = (entries.map Prod.snd)[index]? := by
    rw [List.getElem?_map, List.getElem?_map, hget, hk, Option.map_some, Option.map_some, hsame]
  have hlt : i < (entries.map Prod.snd).length := by
    rw [List.length_map]
    exact (List.getElem?_eq_some_iff.mp hget).1
  exact hi ((List.getElem?_inj hlt h).mp hboth)

theorem Status.Inv.handle (hs : s.Inv) {msg : Msg} {t : State} (hmsg : s.sync.mailbox.head? = some msg)
    (h : s.sync.step cfg .handle = some t) (hclean : s.Clean notifies (.sync .handle)) :
    (s.handle notifies msg t).Inv := by
  obtain ⟨hentries, hrequests⟩ := step_handle hmsg h
  rw [List.eraseP_eq_eraseIdx] at hentries
  rw [Status.handle]
  cases hindex : s.sync.getStatusInstance msg.opCode with
  | none =>
      have hnone : s.sync.statusInstance.findIdx? (·.opCode == msg.opCode) = none := hindex
      rw [hnone] at hentries
      exact hs.grow (.inl ⟨hentries, Nat.le_of_eq hrequests.symm⟩) False.elim
  | some index =>
      have hsome : s.sync.statusInstance.findIdx? (·.opCode == msg.opCode) = some index := hindex
      have hlength : s.sync.entries.length = s.sync.statusInstance.length := List.length_map _
      rw [hsome] at hentries
      have hentries : t.entries = s.sync.entries.eraseIdx index := hentries.trans (List.eraseIdx_map _ _ _).symm
      have hsub : (t.entries.map Prod.snd).Sublist (s.sync.entries.map Prod.snd) := by
        rw [hentries]
        exact (List.eraseIdx_sublist _ _).map _
      refine ⟨?_, hs.distinct.sublist hsub, fun r hr => ?_, fun r hr => ?_, fun rep hrep => ?_⟩
      · show Marks (moveDown s.twsCmdSendDone index s.sync.statusInstance.length) s.sent t.entries
        rw [hentries, ← hlength]
        exact hs.marks.erase index
      · exact hrequests.symm ▸ hs.request_lt r (hsub.mem hr)
      · exact hrequests.symm ▸ hs.sent_lt r hr
      · rcases List.mem_append.mp hrep with hold | hnew
        · obtain ⟨hright, hlt, hgone⟩ := hs.reported rep hold
          exact ⟨hright, hrequests.symm ▸ hlt, fun hmem => hgone (hsub.mem hmem)⟩
        · obtain ⟨x, hx, rfl⟩ := List.mem_map.mp hnew
          obtain ⟨hget, hnotifies⟩ := Option.filter_eq_some_iff.mp (Option.mem_toList.mp hx)
          have hentry : s.sync.entries[index]? = some x.entry := by
            rw [State.entries, List.getElem?_map, hget]
            rfl
          have hlt := hs.request_lt x.request
            (List.mem_map_of_mem (f := Prod.snd) (List.mem_of_getElem? hentry))
          refine ⟨?_, hrequests.symm ▸ hlt, ?_⟩
          · show moveDown _ index _ index = true ↔ x.request ∈ s.sent
            have hmarks : s.twsCmdSendDone index = true ↔ x.request ∈ s.sent := hs.marks index x.entry hentry
            rw [← hmarks, moveDown]
            split
            case isTrue hmoved => rw [hclean msg hmsg hnotifies index hindex hmoved.2]
            case isFalse => exact Iff.rfl
          · show x.request ∉ t.entries.map Prod.snd
            rw [hentries]
            exact request_not_mem_eraseIdx hs.distinct hentry

theorem Status.Inv.sendTwsCmdDone (hs : s.Inv) {paramLen opCode : Nat}
    (hclean : s.Clean notifies (.sendTwsCmdDone paramLen opCode)) : (s.sendTwsCmdDone paramLen opCode).Inv := by
  rw [Status.sendTwsCmdDone]
  by_cases hlen : paramLen < triggerInfoSize
  · rw [if_pos hlen]
    exact hs
  rw [if_neg hlen]
  cases hindex : s.sync.getStatusInstance opCode with
  | none => exact hs
  | some index =>
      have hrequests : (s.sync.statusInstance.filter (·.opCode == opCode)).map (·.request) =
          (s.sync.entries.filter (·.1 == opCode)).map Prod.snd := by
        rw [State.entries, List.filter_map, List.map_map]
        rfl
      have hmem : ∀ r, r ∈ (s.sync.entries.filter (·.1 == opCode)).map Prod.snd →
          r ∈ s.sync.entries.map Prod.snd := fun r hr => (List.filter_sublist.map _).mem hr
      have hop : ∀ i, s.sync.statusInstance[i]?.map StatusInfo.opCode = s.sync.entries[i]?.map Prod.fst := fun i => by
        rw [State.entries, List.getElem?_map, Option.map_map]
        rfl
      simp only [hrequests]
      refine ⟨?_, hs.distinct, hs.request_lt, fun r hr => ?_, fun rep hrep => ?_⟩
      · apply hs.marks.send hs.distinct
        · intro k hk
          obtain ⟨hlt, hfound, -⟩ := List.findIdx?_eq_some_iff_getElem.mp hindex
          have hsame := hop index
          rw [hk, List.getElem?_eq_getElem hlt, Option.map_some, Option.map_some, Option.some.injEq] at hsame
          rw [← hsame]
          exact beq_iff_eq.mp hfound
        · intro i k hk hkop
          have hlt : i < s.sync.entries.length := (List.getElem?_eq_some_iff.mp hk).1
          rw [State.entries, List.length_map] at hlt
          apply hclean (Nat.not_lt.mp hlen) index hindex i hlt
          rw [hop i, hk, Option.map_some, hkop]
      · rcases List.mem_append.mp hr with hnew | hold
        · exact hs.request_lt r (hmem r hnew)
        · exact hs.sent_lt r hold
      · obtain ⟨hright, hlt, hgone⟩ := hs.reported rep hrep
        refine ⟨?_, hlt, hgone⟩
        rw [List.mem_append]
        exact hright.trans ⟨.inr, fun h => h.resolve_left fun hnew => hgone (hmem _ hnew)⟩

theorem Status.Inv.step (hs : s.Inv) {e : StatusEvent} (hclean : s.Clean notifies e)
    (h : s.step cfg notifies e = some s') : s'.Inv := by
  have hother : ∀ {e : Event}, e ≠ .handle →
      (s.sync.Adds e → s.twsCmdSendDone s.sync.statusInstance.length = false) →
      (s.sync.step cfg e).map (fun sync => { s with sync := sync }) = some s' → s'.Inv := fun he hclean h => by
    obtain ⟨t, ht, rfl⟩ := Option.map_eq_some_iff.mp h
    exact hs.grow (step_grows he ht) hclean
  cases e with
  | sendTwsCmdDone paramLen opCode => exact Option.some.inj h ▸ hs.sendTwsCmdDone hclean
  | sync e =>
      cases e with
      | handle =>
          obtain ⟨msg, hmsg, hstep⟩ := Option.bind_eq_some_iff.mp h
          obtain ⟨t, ht, rfl⟩ := Option.map_eq_some_iff.mp hstep
          exact hs.handle hmsg ht hclean
      | pass ticks => exact hother Event.noConfusion hclean h
      | enable r => exact hother Event.noConfusion hclean h
      | twsCmd c => exact hother Event.noConfusion hclean h
      | irq i => exact hother Event.noConfusion hclean h
      | timeout => exact hother Event.noConfusion hclean h

/-- As long as no flag is taken over from another request, every report says of its own request whether the command was
sent. -/
theorem run_faithful (cfg : Config) (notifies : Nat → Bool) (events : List StatusEvent) (s : Status)
    (h : Along (Status.step cfg notifies) (Status.Clean notifies) .init events)
    (hrun : run (Status.step cfg notifies) .init events = some s) : s.Faithful := by
  have hs : s.Inv := run_invariant_along Status.Inv (fun _ _ _ hs hclean h => hs.step hclean h) h Status.inv_init hrun
  exact fun rep hrep => (hs.reported rep hrep).1

instance (s : State) (r : Request) : Decidable (s.AddsFor r) := inferInstanceAs (Decidable (_ ∧ _ ∧ _))

instance (s : State) (e : Event) : Decidable (s.Adds e) :=
  match e with
  | .enable r => inferInstanceAs (Decidable (s.AddsFor r))
  | .twsCmd _ => inferInstanceAs (Decidable (_ ∧ _ ∧ _ ∧ _ ∧ State.AddsFor _ _))
  | .pass _ | .irq _ | .timeout | .handle => inferInstanceAs (Decidable False)

instance (s : Status) (e : StatusEvent) : Decidable (s.Clean notifies e) :=
  match e with
  | .sync .handle => inferInstanceAs (Decidable (∀ msg ∈ s.sync.mailbox.head?, notifies msg.opCode →
      ∀ index ∈ s.sync.getStatusInstance msg.opCode, index + 1 < s.sync.statusInstance.length →
        s.twsCmdSendDone (index + 1) = s.twsCmdSendDone index))
  | .sync (.pass _) | .sync (.enable _) | .sync (.twsCmd _) | .sync (.irq _) | .sync .timeout =>
      inferInstanceAs (Decidable (State.Adds _ _ → _ = _))
  | .sendTwsCmdDone paramLen opCode => inferInstanceAs (Decidable (triggerInfoSize ≤ paramLen →
      ∀ index ∈ s.sync.getStatusInstance opCode, ∀ i < s.sync.statusInstance.length,
        s.sync.statusInstance[i]?.map (·.opCode) = some opCode → i = index ∨ s.twsCmdSendDone i))

/-- Of two requests the command of the second is sent, and it is complete first; then there is a third one. -/
def lastFirstEvents : List StatusEvent :=
  [.sync (.enable ⟨opRetrigger, 0, false, false, masterLink⟩), .sync (.pass 16),
    .sync (.enable ⟨opSwitch, 0, false, false, masterLink⟩), .sendTwsCmdDone triggerInfoSize opSwitch,
    .sync (.irq channel1), .sync .handle, .sync (.pass 47984), .sync .timeout, .sync .handle,
    .sync (.enable ⟨opVolume, 0, false, false, masterLink⟩), .sync (.pass 48000), .sync .timeout, .sync .handle]

theorem lastFirstEvents_faithful : ∃ s, run (Status.step smallConfig fun _ => true) .init lastFirstEvents = some s ∧
    s.reports.map (fun rep => (rep.request, rep.triInfoSentStatus)) = [(1, true), (0, false), (2, false)] ∧
    s.Faithful := by
  refine ⟨_, rfl, by decide, ?_⟩
  exact run_faithful smallConfig (fun _ => true) lastFirstEvents _ (by decide) rfl

/-- The same two requests, but the first is complete first. Its command was not sent. -/
theorem firstFirst_not_faithful : ∃ s, run (Status.step smallConfig fun _ => true) .init
    [.sync (.enable ⟨opRetrigger, 0, false, false, masterLink⟩), .sync (.pass 16),
      .sync (.enable ⟨opSwitch, 0, false, false, masterLink⟩), .sendTwsCmdDone triggerInfoSize opSwitch,
      .sync (.pass 47984), .sync .timeout, .sync .handle] = some s ∧ ¬ s.Faithful := by
  refine ⟨_, rfl, fun hfaithful => ?_⟩
  have hreport := hfaithful ⟨0, opRetrigger, false, true⟩ (by decide)
  exact absurd (hreport.mp rfl) (by decide)

end Best1307.BtSync
