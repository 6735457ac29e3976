import Mathlib.Logic.Function.Basic
import Best1307.Lib.Run

/-!
# The OTA record

For each device the record keeps how far an upgrade has come, so that it can be resumed after an interruption. An
update is given the string of its session, and that is compared with the version recorded. It is only where they
agree that the version is written, with zeros: the string of a session never gets into the record. The break point
goes back to 0 when an upgrade is given up, and not when one with another string begins.
-/

namespace Best1307.NvOta

def maxVersionStringLen : Nat := 16

inductive OtaStage
  | idle
  | ongoing
  | done
  deriving DecidableEq, Repr

inductive OtaDevice
  | app
  | hotword
  deriving DecidableEq, Repr

structure SessionName where
  bytes : List UInt8
  nonzero : ∀ byte ∈ bytes, byte ≠ 0
  length_lt : bytes.length < maxVersionStringLen
  deriving DecidableEq

structure NvOtaInfo where
  imageSize : Nat
  breakPoint : Nat
  version : List UInt8
  otaStatus : OtaStage
  user : Nat
  deriving DecidableEq, Repr

/-- `nvrecord_rebuild_ota_info` -/
def NvOtaInfo.zero : NvOtaInfo := ⟨0, 0, .replicate maxVersionStringLen 0, .idle, 0⟩

namespace NvOtaInfo

variable (ota : NvOtaInfo)

/-- `nv_record_ota_update_breakpoint`, and whether it asks for a flush; `none` where its assertion fails. -/
def updateBreakpoint (user otaOffset : Nat) : Option (NvOtaInfo × Bool) :=
  if ota.otaStatus = .ongoing then
    some ({ ota with
      user
      breakPoint := otaOffset }, user ≠ ota.user || otaOffset ≠ ota.breakPoint)
  else none

/-- `memcmp` with the zero at the end of the session string. -/
def isVersion (session : SessionName) : Bool :=
  ota.version.take (session.bytes.length + 1) == session.bytes ++ [0]

/-- `nv_record_ota_update_info` where the update is allowed, and whether it asks for a flush; `none` where one of
its assertions fails. -/
def updateInfo (status : OtaStage) (totalImageSize : Nat) (session : SessionName) : Option (NvOtaInfo × Bool) :=
  let isCleared := ota.isVersion session
  let ota' := if isCleared then { ota with version := .replicate maxVersionStringLen 0 } else ota
  let update := isCleared || ota.otaStatus ≠ status
  let ota' := { ota' with otaStatus := status }
  match status with
  | .idle => some ({ ota' with breakPoint := 0 }, update || ota.breakPoint ≠ 0)
  | .ongoing =>
      if totalImageSize ≠ 0 then
        some ({ ota' with imageSize := totalImageSize }, update || ota.imageSize ≠ totalImageSize)
      else none
  | .done =>
      if totalImageSize = ota.imageSize then
        some ({ ota' with breakPoint := totalImageSize }, update || totalImageSize ≠ ota.breakPoint)
      else none

end NvOtaInfo

inductive ResumeState
  | none
  | inProgress
  | complete
  deriving DecidableEq, Repr

/-- `GSoundOtaResumeInfo` -/
structure ResumeInfo where
  requestedState : ResumeState
  offset : Nat
  version : List UInt8
  deriving DecidableEq, Repr

/-- `gsound_custom_ota_get_resume_info` for a device; where no upgrade is recorded it leaves the rest as it is. -/
def NvOtaInfo.getResumeInfo (ota : NvOtaInfo) (info : ResumeInfo) : ResumeInfo :=
  match ota.otaStatus with
  | .done => ⟨.complete, ota.breakPoint, ota.version⟩
  | .ongoing => ⟨.inProgress, ota.breakPoint, ota.version⟩
  | .idle => { info with requestedState := .none }

/-! ### The sessions -/

/-- The string of the last ongoing update, and the break point set since it came. -/
structure Session where
  name : Option SessionName
  breakPoint : Nat
  deriving DecidableEq

def Session.update (session : Session) (status : OtaStage) (totalImageSize : Nat) (name : SessionName) : Session :=
  match status with
  | .idle => { session with breakPoint := 0 }
  | .ongoing => if session.name = some name then session else ⟨some name, 0⟩
  | .done => { session with breakPoint := totalImageSize }

/-- The records of the devices, and the sessions their updates make. -/
structure State where
  records : OtaDevice → NvOtaInfo
  sessions : OtaDevice → Session

def State.init : State := ⟨fun _ => .zero, fun _ => ⟨none, 0⟩⟩

/-- A break point, or an update of a user that may insert what it names: `nv_record_gsound_rec_is_model_insert_allowed`
says so of a hotword model. -/
inductive Event
  | updateBreakpoint (user : Nat) (device : OtaDevice) (otaOffset : Nat)
  | updateInfo (user : Nat) (device : OtaDevice) (status : OtaStage) (totalImageSize : Nat) (session : SessionName)
      (isModelInsertAllowed : Bool)
  deriving DecidableEq

/-- `GSOUND_HOTWORD_ENABLED` and `OTA_USER_COLORFUL` -/
structure Config where
  gsoundHotwordEnabled : Bool
  otaUserColorful : Nat

def Config.isAllowed (cfg : Config) (user : Nat) (device : OtaDevice) (isModelInsertAllowed : Bool) : Bool :=
  if cfg.gsoundHotwordEnabled ∧ user = cfg.otaUserColorful ∧ device = .hotword then isModelInsertAllowed else true

def State.set (s : State) (device : OtaDevice) (ota : NvOtaInfo) (session : Session) : State where
  records := Function.update s.records device ota
  sessions := Function.update s.sessions device session

def step (cfg : Config) (s : State) : Event → Option State
  | .updateBreakpoint user device otaOffset =>
      ((s.records device).updateBreakpoint user otaOffset).map fun result =>
        s.set device result.1 { s.sessions device with breakPoint := otaOffset }
  | .updateInfo user device status totalImageSize session isModelInsertAllowed =>
      if cfg.isAllowed user device isModelInsertAllowed then
        ((s.records device).updateInfo status totalImageSize session).map fun result =>
          s.set device result.1 ((s.sessions device).update status totalImageSize session)
      else some s

def cString (bytes : List UInt8) : List UInt8 := bytes.takeWhile (· ≠ 0)

/-- What is reported of an upgrade is its session and the break point set in it. -/
def State.Reports (s : State) : Prop :=
  ∀ device info name, ((s.records device).getResumeInfo info).requestedState ≠ .none →
    (s.sessions device).name = some name →
      cString ((s.records device).getResumeInfo info).version = name.bytes ∧
        ((s.records device).getResumeInfo info).offset = (s.sessions device).breakPoint

def State.Correct (cfg : Config) (s : State) (e : Event) : Prop := ∀ s', step cfg s e = some s' → s'.Reports

/-- An ongoing update that is allowed has the empty session string. -/
def Event.Unnamed (cfg : Config) : Event → Prop
  | .updateInfo user device .ongoing totalImageSize session isModelInsertAllowed =>
      cfg.isAllowed user device isModelInsertAllowed → totalImageSize ≠ 0 → session.bytes = []
  | _ => True

/-! ### The record -/

section Record

variable {ota ota' : NvOtaInfo} {update : Bool} {status : OtaStage} {totalImageSize : Nat} {session : SessionName}

theorem updateInfo_eq (status : OtaStage) (totalImageSize : Nat) (session : SessionName)
    (hversion : ota.version = .replicate maxVersionStringLen 0) :
    (ota.updateInfo status totalImageSize session).map Prod.fst =
      match status with
      | .idle => some { ota with
          otaStatus := .idle
          breakPoint := 0 }
      | .ongoing =>
          if totalImageSize ≠ 0 then
            some { ota with
              otaStatus := .ongoing
              imageSize := totalImageSize }
          else none
      | .done =>
          if totalImageSize = ota.imageSize then
            some { ota with
              otaStatus := .done
              breakPoint := totalImageSize }
          else none := by
  have hcleared : (if ota.isVersion session then { ota with version := .replicate maxVersionStringLen 0 } else ota) =
      ota := by
    rw [← hversion]
    exact ite_self _
  cases status with
  | idle =>
      simp only [NvOtaInfo.updateInfo, hcleared]
      rfl
  | ongoing =>
      simp only [NvOtaInfo.updateInfo, hcleared]
      exact apply_ite _ _ _ _
  | done =>
      simp only [NvOtaInfo.updateInfo, hcleared]
      exact apply_ite _ _ _ _

theorem updateInfo_unchanged (h : ota.updateInfo status totalImageSize session = some (ota', false)) :
    ota' = ota := by
  have hversion (hnot : ota.isVersion session = false) :
      (if ota.isVersion session then { ota with version := .replicate maxVersionStringLen 0 } else ota) = ota :=
    if_neg (Bool.eq_false_iff.mp hnot)
  cases status with
  | idle =>
      obtain ⟨rfl, hsame⟩ := Prod.mk.inj (Option.some.inj h)
      simp only [Bool.or_eq_false_iff, decide_eq_false_iff_not, ne_eq, not_not] at hsame
      rw [hversion hsame.1.1, ← hsame.1.2, ← hsame.2]
  | ongoing =>
      obtain ⟨-, heq⟩ := Option.ite_none_right_eq_some.mp h
      obtain ⟨rfl, hsame⟩ := Prod.mk.inj (Option.some.inj heq)
      simp only [Bool.or_eq_false_iff, decide_eq_false_iff_not, ne_eq, not_not] at hsame
      rw [hversion hsame.1.1, ← hsame.1.2, ← hsame.2]
  | done =>
      obtain ⟨-, heq⟩ := Option.ite_none_right_eq_some.mp h
      obtain ⟨rfl, hsame⟩ := Prod.mk.inj (Option.some.inj heq)
      simp only [Bool.or_eq_false_iff, decide_eq_false_iff_not, ne_eq, not_not] at hsame
      rw [hversion hsame.1.1, ← hsame.1.2, hsame.2]

theorem cString_replicate_zero (n : Nat) : cString (List.replicate n 0) = [] := by
  cases n with
  | zero => rfl
  | succ n => exact List.takeWhile_cons_of_neg (by decide)

end Record

/-! ### Every sequence of updates -/

/-- No string gets into a record; as long as the sessions have none, the break point is the one set in them. -/
structure Tracks (ota : NvOtaInfo) (session : Session) : Prop where
  version : ota.version = .replicate maxVersionStringLen 0
  breakPoint : ota.breakPoint = session.breakPoint
  unnamed : ∀ name, session.name = some name → name.bytes = []
  fresh : session.name = none → ota.breakPoint = 0 ∧ ota.imageSize = 0 ∧ ota.otaStatus ≠ .ongoing

namespace Tracks

variable {ota : NvOtaInfo} {session : Session} {result : NvOtaInfo × Bool} {totalImageSize : Nat}
  {name : SessionName}

theorem updateBreakpoint (h : Tracks ota session) {user otaOffset : Nat}
    (hresult : ota.updateBreakpoint user otaOffset = some result) :
    Tracks result.1 { session with breakPoint := otaOffset } := by
  obtain ⟨hongoing, heq⟩ := Option.ite_none_right_eq_some.mp hresult
  obtain rfl := Option.some.inj heq
  refine ⟨h.version, rfl, h.unnamed, fun hnone => ?_⟩
  exact absurd hongoing (h.fresh hnone).2.2

theorem updateInfo (h : Tracks ota session) {status : OtaStage}
    (hresult : ota.updateInfo status totalImageSize name = some result)
    (hunnamed : status = .ongoing → totalImageSize ≠ 0 → name.bytes = []) :
    Tracks result.1 (session.update status totalImageSize name) := by
  have hrecord := updateInfo_eq status totalImageSize name h.version
  rw [hresult, Option.map_some] at hrecord
  cases status with
  | idle =>
      rw [Option.some.inj hrecord]
      refine ⟨h.version, rfl, h.unnamed, fun hnone => ⟨rfl, (h.fresh hnone).2.1, ?_⟩⟩
      exact OtaStage.noConfusion
  | ongoing =>
      obtain ⟨hsize, heq⟩ := Option.ite_none_right_eq_some.mp hrecord.symm
      rw [← Option.some.inj heq]
      have hempty := hunnamed rfl hsize
      simp only [Session.update]
      split
      case isTrue hsame =>
        refine ⟨h.version, h.breakPoint, h.unnamed, fun hnone => ?_⟩
        exact absurd (hsame.symm.trans hnone) (Option.some_ne_none name)
      case isFalse hother =>
        have hnone : session.name = none := by
          refine Option.eq_none_iff_forall_ne_some.mpr fun other hname => hother ?_
          have hbytes := h.unnamed other hname
          cases other
          cases name
          cases hbytes.trans hempty.symm
          exact hname
        refine ⟨h.version, (h.fresh hnone).1, fun other hname => ?_, fun hnew => ?_⟩
        · rw [← Option.some.inj hname]
          exact hempty
        · cases hnew
  | done =>
      obtain ⟨hsize, heq⟩ := Option.ite_none_right_eq_some.mp hrecord.symm
      rw [← Option.some.inj heq]
      refine ⟨h.version, rfl, h.unnamed, fun hnone => ?_⟩
      have hzero := (h.fresh hnone).2.1
      exact ⟨hsize.trans hzero, hzero, OtaStage.noConfusion⟩

end Tracks

namespace State

variable {cfg : Config} {s s' : State} {e : Event}

def Inv (s : State) : Prop := ∀ device, Tracks (s.records device) (s.sessions device)

theorem Inv.set (h : s.Inv) {device : OtaDevice} {ota : NvOtaInfo} {session : Session} (hnew : Tracks ota session) :
    (s.set device ota session).Inv := by
  intro other
  by_cases hsame : other = device
  · subst hsame
    simp only [State.set, Function.update_self]
    exact hnew
  · simp only [State.set, Function.update_of_ne hsame]
    exact h other

theorem Inv.step (h : s.Inv) (hunnamed : e.Unnamed cfg) (hstep : step cfg s e = some s') : s'.Inv := by
  cases e with
  | updateBreakpoint user device otaOffset =>
      obtain ⟨result, hresult, rfl⟩ := Option.map_eq_some_iff.mp hstep
      exact h.set ((h device).updateBreakpoint hresult)
  | updateInfo user device status totalImageSize session isModelInsertAllowed =>
      simp only [NvOta.step] at hstep
      split at hstep
      case isTrue hallowed =>
        obtain ⟨result, hresult, rfl⟩ := Option.map_eq_some_iff.mp hstep
        refine h.set ((h device).updateInfo hresult fun hongoing hsize => ?_)
        subst hongoing
        exact hunnamed hallowed hsize
      case isFalse => exact Option.some.inj hstep ▸ h

theorem Inv.reports (h : s.Inv) : s.Reports := by
  intro device info name hstate hname
  have ht := h device
  have hempty : cString (s.records device).version = name.bytes := by
    rw [ht.version, cString_replicate_zero, ht.unnamed name hname]
  rw [NvOtaInfo.getResumeInfo] at hstate ⊢
  cases hstatus : (s.records device).otaStatus with
  | idle =>
      rw [hstatus] at hstate
      exact absurd rfl hstate
  | ongoing => exact ⟨hempty, ht.breakPoint⟩
  | done => exact ⟨hempty, ht.breakPoint⟩

theorem Inv.correct_iff (h : s.Inv) : s.Correct cfg e ↔ e.Unnamed cfg := by
  refine ⟨fun hcorrect => ?_, fun hunnamed s' hstep => (h.step hunnamed hstep).reports⟩
  cases e with
  | updateBreakpoint => trivial
  | updateInfo user device status totalImageSize session isModelInsertAllowed =>
      cases status with
      | idle => trivial
      | done => trivial
      | ongoing =>
          intro hallowed hsize
          have hrecord := updateInfo_eq .ongoing totalImageSize session (h device).version
          obtain ⟨result, hresult, hota⟩ := Option.map_eq_some_iff.mp (hrecord.trans (if_pos hsize))
          have hstep : NvOta.step cfg s (.updateInfo user device .ongoing totalImageSize session isModelInsertAllowed) =
              some (s.set device result.1 ((s.sessions device).update .ongoing totalImageSize session)) := by
            rw [NvOta.step, if_pos hallowed, hresult, Option.map_some]
          have hname : ((s.sessions device).update .ongoing totalImageSize session).name = some session := by
            simp only [Session.update]
            split
            case isTrue hsame => exact hsame
            case isFalse => rfl
          have hreports := hcorrect _ hstep device ⟨.none, 0, []⟩ session
          simp only [State.set, Function.update_self, hota, NvOtaInfo.getResumeInfo, hname, (h device).version,
            cString_replicate_zero] at hreports
          exact (hreports ResumeState.noConfusion trivial).1.symm

theorem Inv.init : State.init.Inv := by
  intro device
  refine ⟨rfl, rfl, fun name hname => ?_, fun _ => ⟨rfl, rfl, OtaStage.noConfusion⟩⟩
  cases hname

/-- Every state of a run reports its sessions exactly if no update of the run names one. -/
theorem correct_iff_unnamed (cfg : Config) (events : List Event) :
    Along (step cfg) (Correct cfg) .init events ↔ Along (step cfg) (fun _ e => e.Unnamed cfg) .init events :=
  along_iff_of_invariant Inv (fun _ _ h => h.correct_iff) (fun _ _ _ h hunnamed hstep => h.step hunnamed hstep)
    Inv.init

/-- The session "v1", interrupted behind 4096 of its 65536 bytes. -/
def interrupted : List Event :=
  let name : SessionName := ⟨[118, 49],
    List.forall_mem_cons.mpr ⟨by decide, List.forall_mem_singleton.mpr (by decide)⟩, Nat.le_of_ble_eq_true rfl⟩
  [.updateInfo 0 .app .ongoing 65536 name true, .updateBreakpoint 0 .app 4096]

theorem interrupted_not_correct : ¬ Along (step ⟨false, 0⟩) (Correct ⟨false, 0⟩) .init interrupted := by
  intro h
  have hreports := h.1 _ rfl .app ⟨.none, 0, []⟩ _ (by decide) rfl
  exact absurd hreports.1 (by decide)

end State

end Best1307.NvOta
