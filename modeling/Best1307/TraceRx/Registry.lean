import Mathlib.Logic.Function.Basic
import Mathlib.Data.List.FinRange

/-!
# The names of trace commands

`app_trace_rx.c`: callbacks are registered under names, which are kept in arrays of fixed length and compared as
strings.
-/

namespace Best1307.TraceRx

def appTraceRxNameSize : Nat := 20

structure Slot (κ : Type*) where
  name : List UInt8
  callback : Option κ

/-- `app_trace_rx.list`, with `APP_TRACE_RX_ROLE_NUM` places -/
abbrev Registry (κ : Type*) (roleNum : Nat) : Type _ := Fin roleNum → Slot κ

variable {κ : Type*} {roleNum : Nat}

def Registry.empty : Registry κ roleNum := fun _ => ⟨[], none⟩

-- what lies in memory behind the name of a place, up to the next zero
variable (after : Registry κ roleNum → Fin roleNum → List UInt8)

namespace Registry

variable (list : Registry κ roleNum)

/-- The string at the name of a place; a name that fills its array has no zero at its end. -/
def string (id : Fin roleNum) : List UInt8 :=
  if (list id).name.length < appTraceRxNameSize then (list id).name else (list id).name ++ after list id

/-- `app_trace_rx_is_in_list` -/
def isInList (name : List UInt8) : Option (Fin roleNum) :=
  (List.finRange roleNum).find? fun id => list.string after id = name

/-- `app_trace_rx_add_item_to_list` -/
def addItemToList (name : List UInt8) (callback : Option κ) : Registry κ roleNum :=
  match (List.finRange roleNum).find? fun id => (list id).name = [] with
  | none => list
  | some id => if appTraceRxNameSize < name.length then list else Function.update list id ⟨name, callback⟩

/-- `app_trace_rx_del_item_to_list` -/
def delItemToList (id : Fin roleNum) : Registry κ roleNum := Function.update list id ⟨[], none⟩

/-- `app_trace_rx_register` -/
def register (name : List UInt8) (callback : Option κ) : Registry κ roleNum :=
  if (list.isInList after name).isNone then list.addItemToList name callback else list

/-- `app_trace_rx_deregister` -/
def deregister (name : List UInt8) : Registry κ roleNum :=
  match list.isInList after name with
  | some id => list.delItemToList id
  | none => list

end Registry

inductive RegistryCall (κ : Type*) where
  | register (name : List UInt8) (callback : Option κ)
  | deregister (name : List UInt8)

def Registry.apply (list : Registry κ roleNum) : RegistryCall κ → Registry κ roleNum
  | .register name callback => list.register after name callback
  | .deregister name => list.deregister after name

def registered (calls : List (RegistryCall κ)) : Registry κ roleNum := calls.foldl (Registry.apply after) .empty

/-- Names fit their arrays, and an empty place has no callback. -/
def Registry.Inv (list : Registry κ roleNum) : Prop :=
  ∀ id, (list id).name.length ≤ appTraceRxNameSize ∧ ((list id).name = [] → (list id).callback = none)

variable {after} {list : Registry κ roleNum} {name : List UInt8} {id : Fin roleNum}

theorem Registry.Inv.update (h : list.Inv) (id : Fin roleNum) (slot : Slot κ)
    (hslot : slot.name.length ≤ appTraceRxNameSize ∧ (slot.name = [] → slot.callback = none)) :
    Registry.Inv (Function.update list id slot) := by
  intro other
  rw [Function.update_apply]
  split
  · exact hslot
  · exact h other

/-- The empty name is found in an empty place, so it is not registered. -/
theorem Registry.Inv.register (h : list.Inv) (callback : Option κ) : (list.register after name callback).Inv := by
  rw [Registry.register]
  split
  next hnew =>
    rw [Registry.addItemToList]
    split
    · exact h
    next id hfree =>
      split
      · exact h
      next hshort =>
        apply h.update
        refine ⟨Nat.le_of_not_lt hshort, fun hempty => ?_⟩
        have hfound := List.find?_some hfree
        have hname : (list id).name = [] := of_decide_eq_true hfound
        have hstring : list.string after id = name := by
          rw [Registry.string, hname, if_pos (by decide)]
          exact hempty.symm
        have hnot := List.find?_eq_none.mp (Option.isNone_iff_eq_none.mp hnew) id (List.mem_finRange id)
        exact absurd (decide_eq_true hstring) hnot
  next => exact h

theorem registered_inv (calls : List (RegistryCall κ)) : (registered after calls : Registry κ roleNum).Inv := by
  have hstep : ∀ (calls : List (RegistryCall κ)) (list : Registry κ roleNum), list.Inv →
      (calls.foldl (Registry.apply after) list).Inv := by
    intro calls
    induction calls with
    | nil => exact fun _ h => h
    | cons call calls ih =>
      intro list h
      apply ih
      cases call with
      | register name callback => exact h.register callback
      | deregister name =>
        rw [Registry.apply, Registry.deregister]
        split
        · exact h.update _ _ ⟨Nat.zero_le _, fun _ => rfl⟩
        · exact h
  exact hstep calls _ fun _ => ⟨Nat.zero_le _, fun _ => rfl⟩

/-- A name that is found is one of the list, possibly with what follows it. -/
theorem Registry.name_prefix_of_isInList (h : list.isInList after name = some id) : (list id).name <+: name := by
  have hfound := List.find?_some h
  have hstring : list.string after id = name := of_decide_eq_true hfound
  rw [← hstring, Registry.string]
  split
  · exact List.prefix_refl _
  · exact List.prefix_append _ _

end Best1307.TraceRx
