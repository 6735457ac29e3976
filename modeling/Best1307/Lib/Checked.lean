import Mathlib.Algebra.Group.Nat.Defs
import Mathlib.Data.List.GetD

/-!
# Computations that may fail

Code that reads where there is nothing to read, or whose counters go round, is modelled by a computation that fails
there. The rules here say what it takes for a computation to succeed; they turn a program, from its end, into a
condition on what it is given.
-/

namespace Best1307.Checked

/-- A read outside the data, a number that does not fit its width, a loop that does not end within its bound -/
inductive Fault
  | outside
  | wrap
  | endless
  deriving DecidableEq, Repr

variable {ε α β : Type}

theorem ok_bind {a : α} {f : α → Except ε β} : (Except.ok a >>= f) = f a := rfl

theorem error_bind {e : ε} {f : α → Except ε β} : (Except.error e >>= f) = .error e := rfl

theorem bind_eq_ok {x : Except ε α} {f : α → Except ε β} {b : β} :
    (x >>= f) = .ok b ↔ ∃ a, x = .ok a ∧ f a = .ok b := by
  cases x with
  | error e => exact ⟨fun h => (nomatch h), fun ⟨_, h, _⟩ => (nomatch h)⟩
  | ok a => exact ⟨fun h => ⟨a, rfl, h⟩, fun ⟨_, h, hf⟩ => Except.ok.inj h ▸ hf⟩

def Succeeds (x : Except ε α) (post : α → Prop) : Prop := ∃ a, x = .ok a ∧ post a

theorem succeeds_ok {a : α} {post : α → Prop} : Succeeds (.ok a : Except ε α) post ↔ post a := by
  constructor
  · intro h
    obtain ⟨b, hb, hpost⟩ := h
    obtain rfl := Except.ok.inj hb
    exact hpost
  · intro h
    exact ⟨a, rfl, h⟩

theorem succeeds_pure {a : α} {post : α → Prop} : Succeeds (pure a : Except ε α) post ↔ post a := succeeds_ok

theorem succeeds_error {e : ε} {post : α → Prop} : Succeeds (.error e) post ↔ False := by
  constructor
  · intro h
    obtain ⟨a, ha, -⟩ := h
    exact nomatch ha
  · exact False.elim

/-- The rule of a sequence -/
theorem succeeds_bind {x : Except ε α} {f : α → Except ε β} {post : β → Prop} :
    Succeeds (x >>= f) post ↔ Succeeds x fun a => Succeeds (f a) post := by
  cases x with
  | ok a =>
      show Succeeds (f a) post ↔ _
      exact (@succeeds_ok ε α a fun a => Succeeds (f a) post).symm
  | error e => exact succeeds_error.trans succeeds_error.symm

theorem succeeds_bind_pure {x : Except ε α} {b : β} :
    Succeeds (x >>= fun _ => pure b) (fun _ => True) ↔ Succeeds x fun _ => True := by
  rw [succeeds_bind]
  simp only [succeeds_pure]

theorem succeeds_ite {p : Prop} [Decidable p] {x y : Except ε α} {post : α → Prop} :
    Succeeds (if p then x else y) post ↔ (p → Succeeds x post) ∧ (¬ p → Succeeds y post) := by
  split
  · rename_i h
    exact ⟨fun hx => ⟨fun _ => hx, fun hn => absurd h hn⟩, fun hxy => hxy.1 h⟩
  · rename_i h
    exact ⟨fun hy => ⟨fun hp => absurd hp h, fun _ => hy⟩, fun hxy => hxy.2 h⟩

theorem succeeds_guard {p : Prop} [Decidable p] {a : α} {e : ε} {post : α → Prop} :
    Succeeds (if p then .ok a else .error e) post ↔ p ∧ post a := by
  rw [succeeds_ite, succeeds_ok, succeeds_error]
  constructor
  · intro h
    have hp : p := Decidable.byContradiction h.2
    exact ⟨hp, h.1 hp⟩
  · intro h
    exact ⟨fun _ => h.2, fun hn => hn h.1⟩

/-! ### Reads -/

def byte (bytes : List UInt8) (offset : Nat) : Except Fault UInt8 :=
  if offset < bytes.length then .ok (bytes.getD offset 0) else .error .outside

theorem succeeds_byte {bytes : List UInt8} {offset : Nat} {post : UInt8 → Prop} :
    Succeeds (byte bytes offset) post ↔ offset < bytes.length ∧ post (bytes.getD offset 0) := by
  rw [byte, succeeds_guard]

def block (bytes : List UInt8) (offset length : Nat) : Except Fault (List UInt8) :=
  if offset + length ≤ bytes.length then .ok ((bytes.drop offset).take length) else .error .outside

theorem succeeds_block {bytes : List UInt8} {offset length : Nat} {post : List UInt8 → Prop} :
    Succeeds (block bytes offset length) post ↔
      offset + length ≤ bytes.length ∧ post ((bytes.drop offset).take length) := by
  rw [block, succeeds_guard]

/-- A text up to the zero byte behind it -/
def text (bytes : List UInt8) (offset : Nat) : Except Fault (List UInt8) :=
  if 0 ∈ bytes.drop offset then .ok ((bytes.drop offset).takeWhile (· ≠ 0)) else .error .outside

theorem succeeds_text {bytes : List UInt8} {offset : Nat} {post : List UInt8 → Prop} :
    Succeeds (text bytes offset) post ↔
      0 ∈ bytes.drop offset ∧ post ((bytes.drop offset).takeWhile (· ≠ 0)) := by
  rw [text, succeeds_guard]

/-! ### Numbers of a width -/

def sub (a b : Nat) : Except Fault Nat := if b ≤ a then .ok (a - b) else .error .wrap

theorem succeeds_sub {a b : Nat} {post : Nat → Prop} : Succeeds (sub a b) post ↔ b ≤ a ∧ post (a - b) := by
  rw [sub, succeeds_guard]

def add (width a b : Nat) : Except Fault Nat := if a + b < 2 ^ width then .ok (a + b) else .error .wrap

theorem succeeds_add {width a b : Nat} {post : Nat → Prop} :
    Succeeds (add width a b) post ↔ a + b < 2 ^ width ∧ post (a + b) := by
  rw [add, succeeds_guard]

end Best1307.Checked
