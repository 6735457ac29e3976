import Best1307.NvRecord.Flush

/-!
# What a step of the flush can do

Both flushes are schedules of the same few moves on the store. `FlushMove` lists them with what each
asks of the state, and `step_move` says that a step of the machine is one of them. Every invariant is
proved of the moves, so none depends on which flush made them.
-/

namespace Best1307.NvRecord

open FlashQueue

/-- The moves on the store. An operation of the flash that is cut short leaves a content `Tear` allows. -/
inductive FlushMove (b : Build) (Tear : NvExtensionRecord → Prop) : NvStore → NvStore → Prop where
  | stay (s) : FlushMove b Tear s s
  | update (s data) : FlushMove b Tear s (s.nvRecordExtensionUpdate data)
  | mainRefused (s) (hstate : s.state = .idle ∨ s.state = .mainErasing) :
      FlushMove b Tear s { s with state := .mainErasing }
  | mainErase (s) (hstate : s.state = .idle ∨ s.state = .mainErasing) :
      FlushMove b Tear s { s.norflashErase .main with state := .mainErased }
  | snapshot (s s') (hstate : s.state = .mainErased) (hs' : s.snapshot b = some s') : FlushMove b Tear s s'
  | mainWrite (s) (hstate : s.state = .mainWritePending) :
      FlushMove b Tear s { s.norflashWrite b .main with state := .mainWritten }
  | mainDone (s) (hstate : s.state = .mainWritten) (hdrained : s.flash.queue = []) :
      FlushMove b Tear s { s with state := .mainDone }
  | bakRefused (s) (hstate : s.state = .mainDone ∨ s.state = .bakErasing) :
      FlushMove b Tear s { s with state := .bakErasing }
  | bakErase (s) (hstate : s.state = .mainDone ∨ s.state = .bakErasing) :
      FlushMove b Tear s { s.norflashErase .bak with state := .bakErased }
  | bakRead (s) (hstate : s.state = .bakErased ∨ s.state = .bakWritten) :
      FlushMove b Tear s { s.norflashRead .main with state := .bakWritePending }
  | bakWrite (s) (hstate : s.state = .bakWritePending) :
      FlushMove b Tear s { s.norflashWrite b .bak with state := .bakWritten }
  | bakDone (s) (hstate : s.state = .bakWritten) (hdrained : s.flash.queue = []) :
      FlushMove b Tear s { s with state := .idle }
  | flashDone (s flash) (hflash : s.flash.finish = some flash) : FlushMove b Tear s { s with flash := flash }
  | flashTear (s flash content) (hcontent : Tear content) (hflash : s.flash.tear content = some flash) :
      FlushMove b Tear s { s with flash := flash }

/-- The states a call of the flush can leave behind. -/
def NvState.resting : NvState → Bool
  | .mainWritting | .bakWritting | .bakDone => false
  | _ => true

/-- The states the store can be in when a synchronous flush stands at a point. -/
def SyncPoint.admits : SyncPoint → NvState → Bool
  | .off, state | .loop, state => state.resting
  | .mainErase, state =>
      (state matches .idle | .mainErasing | .mainErased | .mainWritePending | .mainWritten)
  | .mainSnapshot, state => (state matches .mainErased | .mainWritePending | .mainWritten)
  | .mainWrite, state => (state matches .mainWritePending | .mainWritten)
  | .mainDrain, state => (state matches .mainWritten)
  | .bakErase, state =>
      (state matches .mainDone | .bakErasing | .bakErased | .bakWritePending | .bakWritten)
  | .bakRead, state => (state matches .bakErased | .bakWritePending | .bakWritten)
  | .bakWrite, state => (state matches .bakWritePending)
  | .bakDrain, state => (state matches .bakWritten)

/-- The synchronous flush, if one runs, stands where the state allows it to. -/
def Machine.Aligned (m : Machine) : Prop := m.sync.admits m.nv.state = true

variable {b : Build} {Tear : NvExtensionRecord → Prop}

theorem snapshot_eq_some {s s' : NvStore} (h : s.snapshot b = some s') :
    b.accepts (s.sealRam b) = true ∧
      s' = { s with ram := s.sealRam b, burnBuf := s.sealRam b, state := .mainWritePending,
                    isUpdate := false, taken := s.taken ++ [b.payload (s.sealRam b)] } := by
  simp only [NvStore.snapshot] at h
  split at h
  · next haccepts => exact ⟨haccepts, (Option.some.inj h).symm⟩
  · contradiction

theorem snapshot_state {s s' : NvStore} (h : s.snapshot b = some s') : s'.state = .mainWritePending := by
  obtain ⟨_, rfl⟩ := snapshot_eq_some h
  rfl

private theorem drained_of_used {s : NvStore} (h : s.norflashUsedCount = 0) : s.flash.queue = [] :=
  List.length_eq_zero_iff.mp h

theorem flushMain_move {s s' : NvStore} {ret : NorflashRet}
    (h : s.nvRecordExtensionFlushMain b ret = some s') : FlushMove b Tear s s' ∧ s'.state.resting = true := by
  unfold NvStore.nvRecordExtensionFlushMain at h
  split at h
  case h_1 hstate | h_2 hstate =>
    cases ret with
    | ok =>
        obtain rfl := Option.some.inj h
        exact ⟨.mainErase s (by simp [hstate]), rfl⟩
    | bufferFull =>
        obtain rfl := Option.some.inj h
        exact ⟨.mainRefused s (by simp [hstate]), rfl⟩
  case h_3 hstate => exact ⟨.snapshot s s' hstate h, by rw [snapshot_state h]; rfl⟩
  case h_4 hstate =>
    cases ret with
    | ok =>
        obtain rfl := Option.some.inj h
        exact ⟨.mainWrite s hstate, rfl⟩
    | bufferFull =>
        obtain rfl := Option.some.inj h
        exact ⟨.stay s, by rw [hstate]; rfl⟩
  case h_5 hstate =>
    split at h
    · next hused =>
        obtain rfl := Option.some.inj h
        exact ⟨.mainDone s hstate (drained_of_used hused), rfl⟩
    · obtain rfl := Option.some.inj h
      exact ⟨.stay s, by rw [hstate]; rfl⟩
  case h_6 => contradiction

theorem flushBak_move {s s' : NvStore} {ret : NorflashRet} (hresting : s.state.resting = true)
    (h : s.nvRecordExtensionFlushBak b ret = some s') : FlushMove b Tear s s' ∧ s'.state.resting = true := by
  unfold NvStore.nvRecordExtensionFlushBak at h
  split at h
  case h_1 hstate | h_2 hstate =>
    cases ret with
    | ok =>
        obtain rfl := Option.some.inj h
        exact ⟨.bakErase s (by simp [hstate]), rfl⟩
    | bufferFull =>
        obtain rfl := Option.some.inj h
        exact ⟨.bakRefused s (by simp [hstate]), rfl⟩
  case h_3 hstate =>
    obtain rfl := Option.some.inj h
    exact ⟨.bakRead s (.inl hstate), rfl⟩
  case h_4 hstate => simp [hstate, NvState.resting] at hresting
  case h_5 hstate =>
    cases ret with
    | ok =>
        obtain rfl := Option.some.inj h
        exact ⟨.bakWrite s hstate, rfl⟩
    | bufferFull =>
        obtain rfl := Option.some.inj h
        rw [NvStore.flushBakEnd, if_neg (by simp [hstate])]
        exact ⟨.stay s, hresting⟩
  case h_6 hstate =>
    split at h
    · next hused =>
        obtain rfl := Option.some.inj h
        exact ⟨.bakDone s hstate (drained_of_used hused), rfl⟩
    · obtain rfl := Option.some.inj h
      rw [NvStore.flushBakEnd, if_neg (by simp [hstate])]
      exact ⟨.stay s, hresting⟩
  case h_7 => contradiction

theorem asyncFlush_move {s s' : NvStore} {ret : NorflashRet} (hresting : s.state.resting = true)
    (h : s.nvRecordExecuteAsyncFlush b ret = some s') : FlushMove b Tear s s' ∧ s'.state.resting = true := by
  unfold NvStore.nvRecordExecuteAsyncFlush at h
  split at h
  · obtain rfl := Option.some.inj h
    exact ⟨.stay s, hresting⟩
  · split at h
    case h_7 => exact flushBak_move hresting h
    all_goals exact flushMain_move h

theorem syncStep_move {m m' : Machine} {ret : NorflashRet} (halign : m.Aligned)
    (h : m.syncStep b ret = some m') : FlushMove b Tear m.nv m'.nv ∧ m'.Aligned := by
  obtain ⟨s, sync⟩ := m
  unfold Machine.Aligned at halign
  cases sync with
  | off => simp [Machine.syncStep] at h
  | loop =>
      simp only [Machine.syncStep] at h
      split at h
      · obtain rfl := Option.some.inj h
        exact ⟨.stay s, halign⟩
      · split at h <;> obtain rfl := Option.some.inj h <;> refine ⟨.stay s, ?_⟩ <;>
          simp_all [Machine.Aligned, SyncPoint.admits, NvState.resting]
        cases hstate : s.state <;> simp_all
  | mainErase =>
      simp only [Machine.syncStep] at h
      split at h
      · next hstate =>
          cases ret with
          | ok =>
              obtain rfl := Option.some.inj h
              exact ⟨.mainErase s hstate, rfl⟩
          | bufferFull =>
              obtain rfl := Option.some.inj h
              exact ⟨.stay s, halign⟩
      · next hstate =>
          obtain rfl := Option.some.inj h
          refine ⟨.stay s, ?_⟩
          cases hs : s.state <;> simp_all [Machine.Aligned, SyncPoint.admits]
  | mainSnapshot =>
      simp only [Machine.syncStep] at h
      split at h
      · next hstate =>
          obtain ⟨s', hs', rfl⟩ := Option.map_eq_some_iff.mp h
          exact ⟨.snapshot s s' hstate hs', by simp [Machine.Aligned, SyncPoint.admits, snapshot_state hs']⟩
      · next hstate =>
          obtain rfl := Option.some.inj h
          refine ⟨.stay s, ?_⟩
          cases hs : s.state <;> simp_all [Machine.Aligned, SyncPoint.admits]
  | mainWrite =>
      simp only [Machine.syncStep] at h
      split at h
      · next hstate =>
          cases ret with
          | ok =>
              obtain rfl := Option.some.inj h
              exact ⟨.mainWrite s hstate, rfl⟩
          | bufferFull =>
              obtain rfl := Option.some.inj h
              exact ⟨.stay s, halign⟩
      · next hstate =>
          obtain rfl := Option.some.inj h
          refine ⟨.stay s, ?_⟩
          cases hs : s.state <;> simp_all [Machine.Aligned, SyncPoint.admits]
  | mainDrain =>
      have hstate : s.state = .mainWritten := by
        cases hs : s.state <;> simp_all [SyncPoint.admits]
      simp only [Machine.syncStep] at h
      split at h
      · next hused =>
          obtain rfl := Option.some.inj h
          exact ⟨.mainDone s hstate (drained_of_used hused), rfl⟩
      · obtain rfl := Option.some.inj h
        exact ⟨.stay s, halign⟩
  | bakErase =>
      simp only [Machine.syncStep] at h
      split at h
      · next hstate =>
          cases ret with
          | ok =>
              obtain rfl := Option.some.inj h
              exact ⟨.bakErase s hstate, rfl⟩
          | bufferFull =>
              obtain rfl := Option.some.inj h
              exact ⟨.stay s, halign⟩
      · next hstate =>
          obtain rfl := Option.some.inj h
          refine ⟨.stay s, ?_⟩
          cases hs : s.state <;> simp_all [Machine.Aligned, SyncPoint.admits]
  | bakRead =>
      simp only [Machine.syncStep] at h
      split at h
      · next hstate =>
          obtain rfl := Option.some.inj h
          exact ⟨.bakRead s hstate, rfl⟩
      · next hstate =>
          obtain rfl := Option.some.inj h
          refine ⟨.stay s, ?_⟩
          cases hs : s.state <;> simp_all [Machine.Aligned, SyncPoint.admits]
  | bakWrite =>
      have hstate : s.state = .bakWritePending := by
        cases hs : s.state <;> simp_all [SyncPoint.admits]
      simp only [Machine.syncStep, if_pos hstate] at h
      cases ret with
      | ok =>
          obtain rfl := Option.some.inj h
          exact ⟨.bakWrite s hstate, rfl⟩
      | bufferFull =>
          obtain rfl := Option.some.inj h
          exact ⟨.stay s, halign⟩
  | bakDrain =>
      have hstate : s.state = .bakWritten := by
        cases hs : s.state <;> simp_all [SyncPoint.admits]
      simp only [Machine.syncStep] at h
      split at h
      · next hused =>
          obtain rfl := Option.some.inj h
          exact ⟨.bakDone s hstate (drained_of_used hused), rfl⟩
      · obtain rfl := Option.some.inj h
        exact ⟨.stay s, halign⟩

/-- Every step of the machine is a move on the store, and leaves the synchronous flush aligned. -/
theorem step_move (Tear : NvExtensionRecord → Prop) {m m' : Machine} {e : Event} (halign : m.Aligned)
    (htear : ∀ content, e = .flashTear content → Tear content) (h : step b m e = some m') :
    FlushMove b Tear m.nv m'.nv ∧ m'.Aligned := by
  cases e with
  | update data =>
      obtain rfl := Option.some.inj h
      exact ⟨.update m.nv data, halign⟩
  | asyncFlush ret =>
      simp only [step] at h
      split at h
      · next hoff =>
          obtain ⟨s', hs', rfl⟩ := Option.map_eq_some_iff.mp h
          have hresting : m.nv.state.resting = true := by
            simpa only [Machine.Aligned, hoff, SyncPoint.admits] using halign
          obtain ⟨hmove, hresting'⟩ := asyncFlush_move hresting hs'
          exact ⟨hmove, by simpa only [Machine.Aligned, hoff, SyncPoint.admits] using hresting'⟩
      · contradiction
  | syncFlush =>
      simp only [step] at h
      split at h
      · next hoff =>
          obtain rfl := Option.some.inj h
          exact ⟨.stay m.nv, by simpa only [Machine.Aligned, hoff, SyncPoint.admits] using halign⟩
      · contradiction
  | syncStep ret => exact syncStep_move halign h
  | flashDone =>
      obtain ⟨flash, hflash, rfl⟩ := Option.map_eq_some_iff.mp h
      exact ⟨.flashDone m.nv flash hflash, halign⟩
  | flashTear content =>
      obtain ⟨flash, hflash, rfl⟩ := Option.map_eq_some_iff.mp h
      exact ⟨.flashTear m.nv flash content (htear content rfl) hflash, halign⟩

end Best1307.NvRecord
