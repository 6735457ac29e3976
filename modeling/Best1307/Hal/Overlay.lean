import Mathlib.Algebra.Group.Nat.Defs
import Mathlib.Data.List.FinRange
import Mathlib.Logic.Function.Basic
import Best1307.Lib.Run

/-!
# Overlays

One overlay at a time is copied to where it runs. What stands behind its data is free to others, from the address that
is published while it is loaded. Loading while another overlay is in use is an assertion that fails. Unloading another
overlay than the one that is loaded is refused, but the address is taken back all the same.
-/

namespace Best1307.Overlay

def overlayIdQty : Nat := 13

abbrev OverlayId := Fin overlayIdQty

/-- What `cur_overlay_id` can be: `HAL_OVERLAY_ID_QTY` for none, `HAL_OVERLAY_ID_IN_CFG`, or an overlay. -/
inductive CurId
  | qty
  | inCfg
  | loaded (id : OverlayId)
  deriving DecidableEq, Repr

inductive Ret
  | ok | badId | inCfg | inUse
  deriving DecidableEq, Repr

/-- The addresses the linker lays out: where overlays run, and where the words of each one come from. The tables have no
entry for the last id. -/
structure Layout where
  textStart : Nat
  dataStart : Nat
  textLoadStart : OverlayId → Nat
  textLoadStop : OverlayId → Nat
  dataLoadStart : OverlayId → Nat
  dataLoadStop : OverlayId → Nat
  dataStart_pos : 0 < dataStart
  dataEnd_lt : ∀ id, dataStart + (dataLoadStop id - dataLoadStart id) < 2 ^ 32

/-- The words at the addresses, and the state of the manager. -/
structure State where
  curOverlayId : CurId
  segmentState : OverlayId → Bool
  overlayDataFreeAddr : Nat
  memory : Nat → UInt32

inductive Call
  | load (id : OverlayId)
  | unload (id : OverlayId)
  deriving DecidableEq, Repr

def State.init (memory : Nat → UInt32) : State := ⟨.qty, fun _ => false, 0, memory⟩

namespace State

variable (s : State)

def acquire (id : OverlayId) : State := { s with segmentState := Function.update s.segmentState id true }

def release (id : OverlayId) : State := { s with segmentState := Function.update s.segmentState id false }

def isUsed : Bool := (List.finRange overlayIdQty).any s.segmentState

end State

/-- The loop that copies words; addresses are in bytes. -/
def copyWords (memory : Nat → UInt32) (dst src : Nat) : Nat → Nat → UInt32
  | 0 => memory
  | count + 1 =>
      let copied := copyWords memory dst src count
      Function.update copied (dst + 4 * count) (copied (src + 4 * count))

def wordCount (start stop : Nat) : Nat := (stop - start + 3) / 4

namespace Layout

variable (layout : Layout)

def getDataSize (id : OverlayId) : Nat := layout.dataLoadStop id - layout.dataLoadStart id

/-- `hal_overlay_get_data_free_addr`; an address that is not aligned fails an assertion. -/
def getDataFreeAddr (s : State) (id : OverlayId) : Option Nat :=
  if s.isUsed then
    let freeAddr := layout.dataStart + layout.getDataSize id
    if freeAddr % 4 = 0 then some freeAddr else none
  else some 0

def copyOverlay (memory : Nat → UInt32) (id : OverlayId) : Nat → UInt32 :=
  copyWords
    (copyWords memory layout.textStart (layout.textLoadStart id)
      (wordCount (layout.textLoadStart id) (layout.textLoadStop id)))
    layout.dataStart (layout.dataLoadStart id) (wordCount (layout.dataLoadStart id) (layout.dataLoadStop id))

/-- `hal_overlay_load`; it does not return where an assertion fails. -/
def load (s : State) (id : OverlayId) : Option (Ret × State) :=
  if s.isUsed then none
  else
    match s.curOverlayId with
    | .qty =>
        let s := { s.acquire id with
          curOverlayId := .loaded id
          memory := layout.copyOverlay s.memory id }.acquire id
        (layout.getDataFreeAddr s id).map fun freeAddr => (.ok, { s with overlayDataFreeAddr := freeAddr })
    | .inCfg => some (.inCfg, s)
    | .loaded _ => some (.inUse, s)

end Layout

/-- `hal_overlay_unload` -/
def unload (s : State) (id : OverlayId) : Ret × State :=
  let ret := if s.curOverlayId = .loaded id then .ok else if s.curOverlayId = .inCfg then .inCfg else .inUse
  let curOverlayId := if s.curOverlayId = .loaded id then .qty else s.curOverlayId
  (ret, { s.release id with curOverlayId := curOverlayId, overlayDataFreeAddr := 0 })

namespace Layout

variable (layout : Layout)

def call (s : State) : Call → Option (Ret × State)
  | .load id => layout.load s id
  | .unload id => some (unload s id)

def step (s : State) (c : Call) : Option State := (layout.call s c).map Prod.snd

/-- The overlay that is loaded, and no other, is marked as used, and what is published is the end of its data. -/
def Consistent (s : State) : Prop :=
  match s.curOverlayId with
  | .qty => (∀ id, s.segmentState id = false) ∧ s.overlayDataFreeAddr = 0
  | .inCfg => False
  | .loaded cur => (∀ id, s.segmentState id = true ↔ id = cur) ∧
      s.overlayDataFreeAddr = layout.dataStart + layout.getDataSize cur

end Layout

/-- A call that is refused has changed nothing. -/
def Atomic (s : State) (ret : Ret) (s' : State) : Prop :=
  ret ≠ .ok → s'.curOverlayId = s.curOverlayId ∧ s'.segmentState = s.segmentState ∧
    s'.overlayDataFreeAddr = s.overlayDataFreeAddr

/-- Before the call all is well, and if it returns it was atomic and all is well again. -/
def Layout.Sound (layout : Layout) (s : State) (c : Call) : Prop :=
  layout.Consistent s ∧ ∀ ret s', layout.call s c = some (ret, s') → Atomic s ret s' ∧ layout.Consistent s'

/-- Nothing else is unloaded than what is loaded, if anything is. -/
def Spares (s : State) : Call → Prop
  | .load _ => True
  | .unload id => ∀ cur, s.curOverlayId = .loaded cur → cur = id

instance (s : State) (c : Call) : Decidable (Spares s c) :=
  match c with
  | .load _ => inferInstanceAs (Decidable True)
  | .unload id =>
      match h : s.curOverlayId with
      | .loaded cur => decidable_of_iff (cur = id) (by simp only [Spares, h, CurId.loaded.injEq, forall_eq'])
      | .qty => isTrue fun _ hcur => by rw [h] at hcur; cases hcur
      | .inCfg => isTrue fun _ hcur => by rw [h] at hcur; cases hcur

/-! ### What a call does -/

variable {layout : Layout} {s s' : State} {id : OverlayId} {ret : Ret}

theorem isUsed_iff : s.isUsed = true ↔ ∃ id, s.segmentState id = true := by
  simp only [State.isUsed, List.any_eq_true, List.mem_finRange, true_and]

theorem load_consistent (hs : layout.Consistent s) (h : layout.load s id = some (ret, s')) :
    ret = .ok ∧ layout.Consistent s' := by
  rw [Layout.load] at h
  by_cases hused : s.isUsed = true
  · rw [if_pos hused] at h
    cases h
  · rw [if_neg hused] at h
    unfold Layout.Consistent at hs
    cases hcur : s.curOverlayId with
    | inCfg => rw [hcur] at hs; exact hs.elim
    | loaded cur =>
        rw [hcur] at hs
        exact absurd (isUsed_iff.mpr ⟨cur, (hs.1 cur).mpr rfl⟩) hused
    | qty =>
        rw [hcur] at hs h
        obtain ⟨addr, haddr, heq⟩ := Option.map_eq_some_iff.mp h
        obtain ⟨rfl, rfl⟩ := Prod.mk.inj heq
        rw [Layout.getDataFreeAddr] at haddr
        split at haddr
        next =>
          dsimp only at haddr
          split at haddr
          · refine ⟨rfl, fun other => ?_, (Option.some.inj haddr).symm⟩
            show Function.update (Function.update s.segmentState id true) id true other = true ↔ other = id
            by_cases hother : other = id
            · subst hother
              exact iff_of_true (Function.update_self _ _ _) rfl
            · rw [Function.update_of_ne hother, Function.update_of_ne hother, hs.1 other]
              exact iff_of_false Bool.false_ne_true hother
          · cases haddr
        next hfree =>
          apply absurd _ hfree
          exact isUsed_iff.mpr ⟨id, Function.update_self _ _ _⟩

theorem unload_consistent (hs : layout.Consistent s) (hcur : s.curOverlayId = .loaded id) :
    (unload s id).1 = .ok ∧ layout.Consistent (unload s id).2 := by
  unfold Layout.Consistent at hs ⊢
  rw [hcur] at hs
  simp only [unload, if_pos hcur]
  refine ⟨trivial, fun other => ?_, trivial⟩
  show Function.update s.segmentState id false other = false
  by_cases hother : other = id
  · subst hother
    exact Function.update_self _ _ _
  · rw [Function.update_of_ne hother]
    exact Bool.eq_false_iff.mpr fun h => hother ((hs.1 other).mp h)

theorem unload_qty (hs : layout.Consistent s) (hcur : s.curOverlayId = .qty) : (unload s id).2 = s := by
  unfold Layout.Consistent at hs
  rw [hcur] at hs
  have hne : s.curOverlayId ≠ .loaded id := by rw [hcur]; exact fun h => by cases h
  have hsegments : Function.update s.segmentState id false = s.segmentState := by
    rw [← hs.1 id]
    exact Function.update_eq_self _ _
  simp only [unload, State.release, if_neg hne, hsegments, ← hs.2]

/-- A call is sound exactly if it spares what is loaded. -/
theorem sound_iff (hs : layout.Consistent s) (c : Call) : layout.Sound s c ↔ Spares s c := by
  cases c with
  | load id =>
      refine iff_of_true ⟨hs, fun ret s' h => ?_⟩ trivial
      obtain ⟨rfl, hs'⟩ := load_consistent hs h
      exact ⟨fun hne => absurd rfl hne, hs'⟩
  | unload id =>
      constructor
      · rintro ⟨-, hsound⟩ cur hcur
        by_contra hother
        obtain ⟨hatomic, -⟩ := hsound _ _ rfl
        have hne : s.curOverlayId ≠ .loaded id := fun h => hother (CurId.loaded.inj (hcur.symm.trans h))
        have hret : (unload s id).1 ≠ .ok := by
          simp only [unload, if_neg hne]
          split <;> decide
        have hfree : 0 = s.overlayDataFreeAddr := (hatomic hret).2.2
        unfold Layout.Consistent at hs
        rw [hcur] at hs
        have hpos := layout.dataStart_pos
        have hend : s.overlayDataFreeAddr = layout.dataStart + layout.getDataSize cur := hs.2
        omega
      · intro hspares
        refine ⟨hs, fun ret s' h => ?_⟩
        have hret : unload s id = (ret, s') := Option.some.inj h
        cases hcur : s.curOverlayId with
        | inCfg =>
            unfold Layout.Consistent at hs
            rw [hcur] at hs
            exact hs.elim
        | qty =>
            have hsame : s' = s := (congrArg Prod.snd hret).symm.trans (unload_qty hs hcur)
            rw [hsame]
            exact ⟨fun _ => ⟨rfl, rfl, rfl⟩, hs⟩
        | loaded cur =>
            obtain rfl := hspares cur hcur
            obtain ⟨hok, hs'⟩ := unload_consistent hs hcur
            rw [hret] at hok hs'
            exact ⟨fun hne => absurd hok hne, hs'⟩

theorem step_consistent (hs : layout.Consistent s) {c : Call} (hspares : Spares s c)
    (h : layout.step s c = some s') : layout.Consistent s' := by
  obtain ⟨⟨ret, t⟩, hcall, rfl⟩ := Option.map_eq_some_iff.mp h
  exact (((sound_iff hs c).mpr hspares).2 ret t hcall).2

/-- All calls of a run are sound exactly if none of them unloads something else than what is loaded. -/
theorem run_sound_iff (layout : Layout) (memory : Nat → UInt32) (calls : List Call) :
    Along layout.step layout.Sound (State.init memory) calls ↔
      Along layout.step Spares (State.init memory) calls := by
  apply along_iff_of_invariant layout.Consistent
  · intro s c hs
    exact sound_iff hs c
  · intro s c s' hs hspares h
    exact step_consistent hs hspares h
  · exact ⟨fun _ => rfl, rfl⟩

/-- Overlays of 16 words of data each. -/
def smallLayout : Layout where
  textStart := 0x20000
  dataStart := 0x30000
  textLoadStart := fun id => 0x100000 + 0x100 * id
  textLoadStop := fun id => 0x100040 + 0x100 * id
  dataLoadStart := fun id => 0x100080 + 0x100 * id
  dataLoadStop := fun id => 0x1000C0 + 0x100 * id
  dataStart_pos := by decide
  dataEnd_lt := fun id => by omega

def firstOverlay : OverlayId := ⟨0, by decide⟩

def secondOverlay : OverlayId := ⟨1, by decide⟩

/-- The first overlay is loaded; unloading the second is refused, but the end of the data is no longer published. -/
theorem not_sound_unloadOther :
    ¬ Along smallLayout.step smallLayout.Sound (State.init fun _ => 0)
        [.load firstOverlay, .unload secondOverlay] := by
  rintro ⟨-, hrest⟩
  obtain ⟨⟨-, hsound⟩, -⟩ := hrest _ rfl
  obtain ⟨hatomic, -⟩ := hsound _ _ rfl
  obtain ⟨-, -, hfree⟩ := hatomic (by decide)
  exact absurd hfree (by decide)

end Best1307.Overlay
