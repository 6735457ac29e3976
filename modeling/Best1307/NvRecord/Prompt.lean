import Mathlib.Algebra.Group.Nat.Defs
import Mathlib.Logic.Function.Basic
import Best1307.Lib.Run

/-!
# The prompt packages in flash

The record keeps where the package of a language lies. The place for a new one is given out before it is downloaded: if
the table is full, the eldest package leaves the table at once, and the new one is entered when it has arrived, if it
does.
-/

namespace Best1307.NvPrompt

def localPackageMax : Nat := 1
def languagePackageSize : Nat := 0x25800

structure PackageNode where
  id : UInt8
  startAddr : Nat
  len : Nat
  deriving DecidableEq, Repr

/-- The section of the prompts, with room for a package. The embedded package lies elsewhere in flash, and flash is
mapped to more than one place, so that its address may be lower or higher. -/
structure PromptSection where
  start : Nat
  stop : Nat
  room : start + languagePackageSize ≤ stop
  fits : stop < 2 ^ 32

/-- `NV_PROMPT_INFO_T` -/
structure PromptInfo where
  num : Nat
  packageInfo : Nat → PackageNode

namespace PromptInfo

variable (sec : PromptSection) (s : PromptInfo)

/-- `nv_record_prompt_rec_add_new_package` -/
def addNewPackage (info : PackageNode) : PromptInfo :=
  match (List.range s.num).find? fun i => (s.packageInfo i).id = info.id with
  | some i =>
      if info.startAddr ≠ 0 then
        { s with packageInfo := Function.update s.packageInfo i { s.packageInfo i with startAddr := info.startAddr } }
      else s
  | none => ⟨(s.num + 1) % 2 ^ 8, Function.update s.packageInfo s.num info⟩

def removeEldest : PromptInfo where
  num := s.num - 1
  packageInfo := fun i => if i < localPackageMax - 1 then s.packageInfo (i + 1) else s.packageInfo i

def addrBehind : Nat :=
  let addr := if 0 < s.num then (s.packageInfo (s.num - 1)).startAddr else 0
  if addr % 2 ^ 24 < sec.start % 2 ^ 24 then sec.start else (addr + languagePackageSize) % 2 ^ 32

/-- `nv_record_prompt_get_package_addr`, whose length is not used; `none` where an assertion fires -/
def getPackageAddr (language : UInt8) (addNew : Bool) : Option (Nat × PromptInfo) :=
  if s.num = 0 then none
  else
    match (List.range localPackageMax).find? fun i => (s.packageInfo i).id = language with
    | some i =>
        let addr := (s.packageInfo i).startAddr
        some (if addNew && addr < sec.start then sec.start else addr, s)
    | none =>
        if addNew = false then some (0, s)
        else if localPackageMax ≤ s.num then some ((s.packageInfo 0).startAddr, s.removeEldest)
        else some (s.addrBehind sec, s)

end PromptInfo

/-! ### Calls -/

inductive Call where
  | getAddr (language : UInt8) (addNew : Bool)
  | addPackage (language : UInt8) (addr len : Nat)
  deriving DecidableEq, Repr

/-- The table, and the places that have been given out for downloads that have not been entered. -/
structure History where
  table : PromptInfo
  obtained : List (UInt8 × Nat)

namespace History

variable (sec : PromptSection) (h : History)

/-- A package is only entered at a place that it was given. -/
def step : Call → Option History
  | .getAddr language addNew =>
      (h.table.getPackageAddr sec language addNew).map fun given =>
        ⟨given.2, if addNew then (language, given.1) :: h.obtained else h.obtained⟩
  | .addPackage language addr len =>
      if (language, addr) ∈ h.obtained then
        some ⟨h.table.addNewPackage ⟨language, addr, len⟩, h.obtained.erase (language, addr)⟩
      else none

def Inside (addr : Nat) : Prop := sec.start ≤ addr ∧ addr + languagePackageSize ≤ sec.stop

/-- The place is a slot in the section, and no other package that is listed lies there. -/
structure Free (s : PromptInfo) (language : UInt8) (addr : Nat) : Prop where
  inside : Inside sec addr
  apart : ∀ i < s.num, (s.packageInfo i).id ≠ language →
    addr + languagePackageSize ≤ (s.packageInfo i).startAddr ∨
      (s.packageInfo i).startAddr + languagePackageSize ≤ addr

/-- No assertion fires, the table has room for what it counts, and a place given out is free. -/
def Meets : Call → Prop
  | .getAddr language addNew => ∃ addr s, h.table.getPackageAddr sec language addNew = some (addr, s) ∧
      s.num ≤ localPackageMax ∧ (addNew = true → Free sec s language addr)
  | .addPackage language addr len => (language, addr) ∈ h.obtained →
      (h.table.addNewPackage ⟨language, addr, len⟩).num ≤ localPackageMax

/-- No request comes while the table is empty, and a place is only asked for while the package lies in a slot of the
section, or below the section and is of that language. A package is entered in the empty table, or in the place of one
of its language. -/
def Plain : Call → Prop
  | .getAddr language addNew => h.table.num ≠ 0 ∧
      (addNew = true → Inside sec (h.table.packageInfo 0).startAddr ∨
        (h.table.packageInfo 0).startAddr < sec.start ∧ (h.table.packageInfo 0).id = language)
  | .addPackage language addr _ => (language, addr) ∈ h.obtained →
      h.table.num = 0 ∨ (h.table.packageInfo 0).id = language

instance (addr : Nat) : Decidable (Inside sec addr) := inferInstanceAs (Decidable (_ ∧ _))

instance (language : UInt8) (addr : Nat) (s : PromptInfo) : Decidable (Free sec s language addr) :=
  decidable_of_iff (Inside sec addr ∧ ∀ i < s.num, (s.packageInfo i).id ≠ language →
      addr + languagePackageSize ≤ (s.packageInfo i).startAddr ∨
        (s.packageInfo i).startAddr + languagePackageSize ≤ addr)
    ⟨fun hfree => ⟨hfree.1, hfree.2⟩, fun hfree => ⟨hfree.inside, hfree.apart⟩⟩

instance : (c : Call) → Decidable (h.Plain sec c)
  | .getAddr .. => inferInstanceAs (Decidable (_ ∧ (_ → _ ∨ _ ∧ _)))
  | .addPackage .. => inferInstanceAs (Decidable (_ → _))

end History

/-! ### One call -/

namespace PromptInfo

variable {sec : PromptSection} {s : PromptInfo}

theorem getPackageAddr_of_eq (hnum : s.num ≠ 0) {language : UInt8} (hid : (s.packageInfo 0).id = language)
    (addNew : Bool) : s.getPackageAddr sec language addNew =
      some
        (if addNew && (s.packageInfo 0).startAddr < sec.start then sec.start else (s.packageInfo 0).startAddr, s) := by
  have hfind : (List.range localPackageMax).find? (fun i => (s.packageInfo i).id = language) = some 0 :=
    List.find?_cons_of_pos (decide_eq_true hid)
  rw [getPackageAddr, if_neg hnum, hfind]

/-- The only package leaves the table for another language. -/
theorem getPackageAddr_of_ne (sec : PromptSection) (hnum : s.num = 1) {language : UInt8}
    (hid : (s.packageInfo 0).id ≠ language) (addNew : Bool) : s.getPackageAddr sec language addNew =
      if addNew = false then some (0, s) else some ((s.packageInfo 0).startAddr, ⟨0, s.packageInfo⟩) := by
  have hfind : (List.range localPackageMax).find? (fun i => (s.packageInfo i).id = language) = none :=
    List.find?_cons_of_neg (fun heq => hid (of_decide_eq_true heq))
  have hremove : s.removeEldest = ⟨0, s.packageInfo⟩ := by
    rw [removeEldest, hnum]
    congr 1
  have hfull : localPackageMax ≤ s.num := Nat.le_of_eq hnum.symm
  rw [getPackageAddr, if_neg (by omega), hfind]
  dsimp only
  rw [if_pos hfull, hremove]

theorem addNewPackage_of_zero (hnum : s.num = 0) (info : PackageNode) :
    s.addNewPackage info = ⟨1, Function.update s.packageInfo 0 info⟩ := by
  rw [addNewPackage, hnum]
  rfl

theorem num_addNewPackage_of_eq (hnum : s.num = 1) {info : PackageNode} (hid : (s.packageInfo 0).id = info.id) :
    (s.addNewPackage info).num = 1 := by
  have hfind : (List.range s.num).find? (fun i => (s.packageInfo i).id = info.id) = some 0 := by
    rw [hnum]
    exact List.find?_cons_of_pos (decide_eq_true hid)
  rw [addNewPackage, hfind]
  dsimp only
  split
  case isTrue => exact hnum
  case isFalse => exact hnum

theorem num_addNewPackage_of_ne (hnum : s.num = 1) {info : PackageNode} (hid : (s.packageInfo 0).id ≠ info.id) :
    (s.addNewPackage info).num = 2 := by
  have hfind : (List.range s.num).find? (fun i => (s.packageInfo i).id = info.id) = none := by
    rw [hnum]
    exact List.find?_cons_of_neg (fun heq => hid (of_decide_eq_true heq))
  rw [addNewPackage, hfind]
  exact congrArg (fun n => (n + 1) % 2 ^ 8) hnum

end PromptInfo

namespace History

variable {sec : PromptSection} {h h' : History} {c : Call}

/-- There is at most one package, and all places given out are slots in the section. -/
structure Inv (sec : PromptSection) (h : History) : Prop where
  num_le : h.table.num ≤ 1
  inside : ∀ given ∈ h.obtained, Inside sec given.2

theorem inside_start (sec : PromptSection) : Inside sec sec.start := ⟨Nat.le_refl _, sec.room⟩

theorem inside_given_iff (addr : Nat) : Inside sec (if (true && addr < sec.start : Bool) then sec.start else addr) ↔
    Inside sec addr ∨ addr < sec.start := by
  rw [Bool.true_and]
  by_cases hbelow : addr < sec.start
  · rw [if_pos (decide_eq_true hbelow)]
    exact iff_of_true (inside_start sec) (.inr hbelow)
  · rw [if_neg (fun heq => hbelow (of_decide_eq_true heq))]
    exact (or_iff_left hbelow).symm

theorem Inv.getAddr_iff (hinv : h.Inv sec) (language : UInt8) (addNew : Bool) :
    h.Meets sec (.getAddr language addNew) ↔ h.Plain sec (.getAddr language addNew) := by
  have hle := hinv.num_le
  by_cases hnum : h.table.num = 0
  · refine iff_of_false (fun hmeets => ?_) fun hplain => hplain.1 hnum
    obtain ⟨addr, s, hget, -⟩ := hmeets
    rw [PromptInfo.getPackageAddr, if_pos hnum] at hget
    cases hget
  · by_cases hid : (h.table.packageInfo 0).id = language
    · have hget := @PromptInfo.getPackageAddr_of_eq sec h.table hnum language hid addNew
      constructor
      · intro hmeets
        obtain ⟨addr, s, hget', -, hfree⟩ := hmeets
        have hsame := Option.some.inj (hget.symm.trans hget')
        rw [← (Prod.mk.inj hsame).1] at hfree
        refine ⟨hnum, fun hnew => ?_⟩
        subst hnew
        exact ((inside_given_iff _).mp (hfree rfl).inside).imp_right fun hbelow => ⟨hbelow, hid⟩
      · intro hplain
        refine ⟨_, _, hget, hle, fun hnew => ?_⟩
        subst hnew
        refine ⟨(inside_given_iff _).mpr ((hplain.2 rfl).imp_right And.left), fun i hi hne => ?_⟩
        have hzero : i = 0 := by omega
        exact absurd (hzero ▸ hid) hne
    · have hone : h.table.num = 1 := by omega
      have hget := PromptInfo.getPackageAddr_of_ne sec hone hid addNew
      cases addNew with
      | false => exact iff_of_true ⟨_, _, hget, hle, fun hnew => nomatch hnew⟩ ⟨hnum, fun hnew => nomatch hnew⟩
      | true =>
          constructor
          · intro hmeets
            obtain ⟨addr, s, hget', -, hfree⟩ := hmeets
            have hsame := Option.some.inj (hget.symm.trans hget')
            rw [← (Prod.mk.inj hsame).1] at hfree
            exact ⟨hnum, fun _ => .inl (hfree rfl).inside⟩
          · intro hplain
            have hinside := (hplain.2 rfl).resolve_right fun hsame => hid hsame.2
            exact ⟨_, _, hget, Nat.zero_le _, fun _ => ⟨hinside, fun i hi => absurd hi (Nat.not_lt_zero i)⟩⟩

theorem Inv.addPackage_iff (hinv : h.Inv sec) (language : UInt8) (addr len : Nat) :
    h.Meets sec (.addPackage language addr len) ↔ h.Plain sec (.addPackage language addr len) := by
  refine imp_congr_right fun _ => ?_
  have hle := hinv.num_le
  by_cases hnum : h.table.num = 0
  · rw [PromptInfo.addNewPackage_of_zero hnum]
    exact iff_of_true (Nat.le_refl 1) (.inl hnum)
  · by_cases hid : (h.table.packageInfo 0).id = language
    · rw [PromptInfo.num_addNewPackage_of_eq (by omega) hid]
      exact iff_of_true (Nat.le_refl 1) (.inr hid)
    · rw [PromptInfo.num_addNewPackage_of_ne (by omega) hid]
      exact iff_of_false (by decide) (not_or.mpr ⟨hnum, hid⟩)

theorem Inv.meets_iff (hinv : h.Inv sec) (c : Call) : h.Meets sec c ↔ h.Plain sec c := by
  cases c with
  | getAddr language addNew => exact hinv.getAddr_iff language addNew
  | addPackage language addr len => exact hinv.addPackage_iff language addr len

theorem Inv.step (hinv : h.Inv sec) (hplain : h.Plain sec c) (hstep : h.step sec c = some h') : h'.Inv sec := by
  have hle := hinv.num_le
  cases c with
  | getAddr language addNew =>
      obtain ⟨addr, s, hget, hnum, hfree⟩ := (hinv.getAddr_iff language addNew).mpr hplain
      rw [History.step, hget, Option.map_some, Option.some.injEq] at hstep
      rw [← hstep]
      refine ⟨hnum, fun given hgiven => ?_⟩
      cases addNew with
      | false => exact hinv.inside given hgiven
      | true =>
          cases List.mem_cons.mp hgiven with
          | inl hnew =>
              rw [hnew]
              exact (hfree rfl).inside
          | inr hold => exact hinv.inside given hold
  | addPackage language addr len =>
      rw [History.step] at hstep
      split at hstep
      case isFalse => cases hstep
      case isTrue hgiven =>
        rw [← Option.some.inj hstep]
        refine ⟨?_, fun given hmem => hinv.inside given (List.mem_of_mem_erase hmem)⟩
        exact (hinv.addPackage_iff language addr len).mpr hplain hgiven

/-! ### Runs -/

/-- From a table with one package on, wherever it lies, every call does what it should exactly if every call is a plain
one. -/
theorem run_meets_packages_iff (sec : PromptSection) (package : PackageNode) (calls : List Call) :
    Along (step sec) (Meets sec) ⟨⟨1, fun _ => package⟩, []⟩ calls ↔
      Along (step sec) (Plain sec) ⟨⟨1, fun _ => package⟩, []⟩ calls :=
  along_iff_of_invariant (Inv sec) (fun _ c hinv => hinv.meets_iff c) (fun _ _ _ hinv hplain => hinv.step hplain)
    ⟨Nat.le_refl 1, fun _ hgiven => absurd hgiven List.not_mem_nil⟩

/-- 304 KB behind the code -/
def promptSection : PromptSection where
  start := 0x28300000
  stop := 0x2834C000
  room := Nat.le_of_ble_eq_true rfl
  fits := Nat.le_of_ble_eq_true rfl

/-- The package of another language takes the place of the first one, which comes back and is then updated. -/
def replacingCalls : List Call :=
  [.getAddr 1 false, .getAddr 2 true, .addPackage 2 0x28300000 0x20000, .getAddr 1 false, .getAddr 1 true,
    .addPackage 1 0x28300000 0x25000, .getAddr 1 true]

theorem replacingCalls_meet :
    Along (step promptSection) (Meets promptSection) ⟨⟨1, fun _ => ⟨1, 0x28300000, 0x25800⟩⟩, []⟩ replacingCalls :=
  (run_meets_packages_iff promptSection ⟨1, 0x28300000, 0x25800⟩ replacingCalls).mpr (by decide)

/-- No place may be asked for while the embedded package is listed, which is with the code. -/
example : ¬Plain promptSection ⟨⟨1, fun _ => ⟨1, 0x2C018000, 0x25800⟩⟩, []⟩ (.getAddr 1 true) := by decide

/-- A download that is abandoned leaves the table empty, and the next request meets the assertion. -/
theorem not_meets_abandoned : ¬∀ (sec : PromptSection) (package : PackageNode) (calls : List Call),
    Along (step sec) (Meets sec) ⟨⟨1, fun _ => package⟩, []⟩ calls := by
  intro hall
  have hcalls := hall promptSection ⟨1, 0x28300000, 0x25800⟩ [.getAddr 2 true, .getAddr 1 false]
  obtain ⟨-, hrest⟩ := hcalls
  obtain ⟨⟨addr, s, hget, -⟩, -⟩ := hrest _ rfl
  cases hget

end History

end Best1307.NvPrompt
