import Mathlib.Algebra.Order.Ring.Nat
import Mathlib.Data.List.GetD
import Mathlib.Data.Nat.Digits.Defs
import Mathlib.Data.Vector.Basic
import Mathlib.Tactic.Linarith
import Mathlib.Tactic.Ring

/-!
# Numbers of several words

A number is kept in a fixed number of words, the most significant one first. Sums, differences, halves and products
are worked out word by word, with a carry, a borrow or a remainder from one word to the next.
-/

namespace Best1307.Words

variable {β : Nat}

/-! ### The number in a list of words -/

/-- The number whose digits the words are, the most significant one first. -/
def value (ws : List (Fin β)) : Nat := Nat.ofDigits β (ws.map Fin.val).reverse

@[simp] theorem value_nil : value ([] : List (Fin β)) = 0 := rfl

theorem value_cons (w : Fin β) (ws : List (Fin β)) : value (w :: ws) = value ws + β ^ ws.length * w := by
  rw [value, List.map_cons, Nat.ofDigits_reverse_cons, List.length_map]
  rfl

theorem value_append (as bs : List (Fin β)) : value (as ++ bs) = value bs + β ^ bs.length * value as := by
  rw [value, List.map_append, List.reverse_append, Nat.ofDigits_append, List.length_reverse, List.length_map]
  rfl

theorem value_lt (ws : List (Fin β)) : value ws < β ^ ws.length := by
  induction ws with
  | nil => exact Nat.one_pos
  | cons w ws ih =>
      rw [value_cons, List.length_cons, pow_succ]
      calc value ws + β ^ ws.length * w < β ^ ws.length * (w + 1) := by rw [Nat.mul_succ]; omega
        _ ≤ β ^ ws.length * β := Nat.mul_le_mul_left _ w.isLt

theorem value_injective {as bs : List (Fin β)} (hlength : as.length = bs.length) (h : value as = value bs) :
    as = bs := by
  induction as generalizing bs with
  | nil => exact (List.eq_nil_of_length_eq_zero hlength.symm).symm
  | cons a as ih =>
      cases bs with
      | nil => exact absurd hlength (Nat.succ_ne_zero _)
      | cons b bs =>
          have hlen : as.length = bs.length := Nat.succ.inj hlength
          have has := value_lt as
          have hbs := value_lt bs
          rw [value_cons, value_cons, hlen] at h
          rw [hlen] at has
          have hpos : 0 < β ^ bs.length := Nat.lt_of_le_of_lt (Nat.zero_le _) hbs
          have hword : (a : Nat) = b := by
            have hdiv := congrArg (· / β ^ bs.length) h
            simpa only [Nat.add_mul_div_left _ _ hpos, Nat.div_eq_of_lt has, Nat.div_eq_of_lt hbs, Nat.zero_add]
              using hdiv
          rw [hword] at h
          rw [Fin.ext hword, ih hlen (Nat.add_right_cancel h)]

theorem value_replicate_zero [NeZero β] (n : Nat) : value (List.replicate n (0 : Fin β)) = 0 := by
  rw [value, List.map_replicate, List.reverse_replicate]
  exact Nat.ofDigits_replicate_zero

theorem take_eq_replicate_zero [NeZero β] {ws : List (Fin β)} {n : Nat} (hn : n ≤ ws.length)
    (h : value ws < β ^ (ws.length - n)) : ws.take n = List.replicate n 0 := by
  have hsplit := value_append (ws.take n) (ws.drop n)
  rw [List.take_append_drop, List.length_drop] at hsplit
  have hzero : value (ws.take n) = 0 := by
    by_contra hne
    have := Nat.le_mul_of_pos_right (β ^ (ws.length - n)) (Nat.pos_of_ne_zero hne)
    omega
  have hlength : (ws.take n).length = (List.replicate n (0 : Fin β)).length := by
    rw [List.length_take_of_le hn, List.length_replicate]
  exact value_injective hlength (hzero.trans (value_replicate_zero n).symm)

/-! ### Sums -/

section Arithmetic

variable [NeZero β]

/-- The sum, word by word from the last word on, and the carry out of the first word. -/
def addCarry : List (Fin β) → List (Fin β) → List (Fin β) × Nat
  | a :: as, b :: bs =>
      let rest := addCarry as bs
      let tmp := a.val + b.val + rest.2
      (Fin.ofNat β tmp :: rest.1, if β ≤ tmp then 1 else 0)
  | _, _ => ([], 0)

theorem addCarry_length {as bs : List (Fin β)} (h : as.length = bs.length) : (addCarry as bs).1.length = bs.length := by
  induction as generalizing bs with
  | nil => rw [← h]; rfl
  | cons a as ih =>
      cases bs with
      | nil => rfl
      | cons b bs => exact congrArg Nat.succ (ih (Nat.succ.inj h))

theorem addCarry_carry_le (as bs : List (Fin β)) : (addCarry as bs).2 ≤ 1 := by
  cases as with
  | nil => exact Nat.zero_le 1
  | cons a as =>
      cases bs with
      | nil => exact Nat.zero_le 1
      | cons b bs =>
          rw [addCarry]
          split <;> omega

theorem add_step (a b : Fin β) {carry : Nat} (hcarry : carry ≤ 1) :
    (Fin.ofNat β (a + b + carry)).val + β * (if β ≤ a.val + b.val + carry then 1 else 0) = a + b + carry := by
  have ha := a.isLt
  have hb := b.isLt
  rw [Fin.val_ofNat]
  split
  case isTrue hle =>
    rw [Nat.mod_eq_sub_mod hle, Nat.mod_eq_of_lt (by omega)]
    omega
  case isFalse hlt => rw [Nat.mod_eq_of_lt (by omega), Nat.mul_zero, Nat.add_zero]

theorem value_addCarry {as bs : List (Fin β)} (h : as.length = bs.length) :
    value (addCarry as bs).1 + β ^ bs.length * (addCarry as bs).2 = value as + value bs := by
  induction as generalizing bs with
  | nil => cases List.eq_nil_of_length_eq_zero h.symm; rfl
  | cons a as ih =>
      cases bs with
      | nil => exact absurd h (Nat.succ_ne_zero _)
      | cons b bs =>
          have hlen : as.length = bs.length := Nat.succ.inj h
          have hrest := ih hlen
          have hstep := add_step a b (addCarry_carry_le as bs)
          rw [addCarry, value_cons, value_cons, value_cons, addCarry_length hlen, hlen, List.length_cons, pow_succ]
          linarith only [hrest, congrArg (β ^ bs.length * ·) hstep]

/-! ### Differences -/

/-- The difference, word by word from the last word on, and what the first word had to borrow. -/
def subBorrow : List (Fin β) → List (Fin β) → List (Fin β) × Nat
  | a :: as, b :: bs =>
      let rest := subBorrow as bs
      if a.val < b.val + rest.2 then (Fin.ofNat β (a.val + β - (b.val + rest.2)) :: rest.1, 1)
      else (Fin.ofNat β (a.val - (b.val + rest.2)) :: rest.1, 0)
  | _, _ => ([], 0)

theorem subBorrow_length {as bs : List (Fin β)} (h : as.length = bs.length) :
    (subBorrow as bs).1.length = bs.length := by
  induction as generalizing bs with
  | nil => rw [← h]; rfl
  | cons a as ih =>
      cases bs with
      | nil => rfl
      | cons b bs =>
          have hrest := ih (Nat.succ.inj h)
          rw [subBorrow]
          split <;> exact congrArg Nat.succ hrest

theorem subBorrow_borrow_le (as bs : List (Fin β)) : (subBorrow as bs).2 ≤ 1 := by
  cases as with
  | nil => exact Nat.zero_le 1
  | cons a as =>
      cases bs with
      | nil => exact Nat.zero_le 1
      | cons b bs =>
          rw [subBorrow]
          split
          · exact Nat.le_refl 1
          · exact Nat.zero_le 1

theorem value_subBorrow {as bs : List (Fin β)} (h : as.length = bs.length) :
    value (subBorrow as bs).1 + value bs = value as + β ^ bs.length * (subBorrow as bs).2 := by
  induction as generalizing bs with
  | nil => cases List.eq_nil_of_length_eq_zero h.symm; rfl
  | cons a as ih =>
      cases bs with
      | nil => exact absurd h (Nat.succ_ne_zero _)
      | cons b bs =>
          have hlen : as.length = bs.length := Nat.succ.inj h
          have hrest := ih hlen
          have hlength := subBorrow_length hlen
          have hborrow := subBorrow_borrow_le as bs
          have ha := a.isLt
          have hb := b.isLt
          rw [subBorrow]
          split
          case isTrue hlt =>
            have hword : (Fin.ofNat β (a.val + β - (b.val + (subBorrow as bs).2))).val + (b + (subBorrow as bs).2) =
                a + β := by
              rw [Fin.val_ofNat, Nat.mod_eq_of_lt (by omega)]
              omega
            rw [value_cons, value_cons, value_cons, hlength, hlen, List.length_cons, pow_succ]
            linarith only [hrest, congrArg (β ^ bs.length * ·) hword]
          case isFalse hle =>
            have hword : (Fin.ofNat β (a.val - (b.val + (subBorrow as bs).2))).val + (b + (subBorrow as bs).2) = a := by
              rw [Fin.val_ofNat, Nat.mod_eq_of_lt (by omega)]
              omega
            rw [value_cons, value_cons, value_cons, hlength, hlen, Nat.mul_zero]
            linarith only [hrest, congrArg (β ^ bs.length * ·) hword]

/-! ### Halves -/

/-- The half, word by word from the first word on, with the remainder of the word before. -/
def halve : Nat → List (Fin β) → List (Fin β)
  | _, [] => []
  | rem, a :: as =>
      let val := a.val + rem * β
      Fin.ofNat β (val / 2) :: halve (val - val / 2 * 2) as

theorem halve_length (rem : Nat) (as : List (Fin β)) : (halve rem as).length = as.length := by
  induction as generalizing rem with
  | nil => rfl
  | cons a as ih => exact congrArg Nat.succ (ih _)

theorem value_halve {rem : Nat} (hrem : rem ≤ 1) (as : List (Fin β)) :
    value (halve rem as) = (value as + β ^ as.length * rem) / 2 := by
  induction as generalizing rem with
  | nil =>
      have hhalf : rem / 2 = 0 := Nat.div_eq_of_lt (by omega)
      rw [halve, value_nil, List.length_nil, pow_zero, Nat.one_mul, Nat.zero_add, hhalf]
  | cons a as ih =>
      have ha := a.isLt
      have hβ : rem * β ≤ β := by
        calc rem * β ≤ 1 * β := Nat.mul_le_mul_right β hrem
          _ = β := Nat.one_mul β
      obtain ⟨half, hhalf⟩ : ∃ half, half = (a.val + rem * β) / 2 := ⟨_, rfl⟩
      obtain ⟨rest, hrest⟩ : ∃ rest, rest = a.val + rem * β - half * 2 := ⟨_, rfl⟩
      have hword : (Fin.ofNat β half).val = half := by
        rw [Fin.val_ofNat, Nat.mod_eq_of_lt (by omega)]
      have hsum : a.val + rem * β = half * 2 + rest := by omega
      rw [halve, ← hhalf, ← hrest, value_cons, ih (by omega), halve_length, hword, value_cons, List.length_cons,
        pow_succ]
      have hdigits : value as + β ^ as.length * a + β ^ as.length * β * rem =
          value as + β ^ as.length * rest + 2 * (β ^ as.length * half) := by
        calc value as + β ^ as.length * a + β ^ as.length * β * rem
            = value as + β ^ as.length * (a + rem * β) := by ring
          _ = value as + β ^ as.length * rest + 2 * (β ^ as.length * half) := by rw [hsum]; ring
      rw [hdigits, Nat.add_mul_div_left _ _ (Nat.zero_lt_two)]

/-! ### Products -/

/-- What a word times a number adds to a number of as many words, and the carry out of the first word. -/
def mulAdd (a : Fin β) : List (Fin β) → List (Fin β) → List (Fin β) × Nat
  | b :: bs, r :: rs =>
      let rest := mulAdd a bs rs
      let val := a.val * b.val + r.val + rest.2
      (Fin.ofNat β val :: rest.1, val / β)
  | _, _ => ([], 0)

theorem mulAdd_length (a : Fin β) {bs rs : List (Fin β)} (h : bs.length = rs.length) :
    (mulAdd a bs rs).1.length = rs.length := by
  induction bs generalizing rs with
  | nil => rw [← h]; rfl
  | cons b bs ih =>
      cases rs with
      | nil => rfl
      | cons r rs => exact congrArg Nat.succ (ih (Nat.succ.inj h))

theorem value_mulAdd (a : Fin β) {bs rs : List (Fin β)} (h : bs.length = rs.length) :
    value (mulAdd a bs rs).1 + β ^ rs.length * (mulAdd a bs rs).2 = a * value bs + value rs := by
  induction bs generalizing rs with
  | nil => cases List.eq_nil_of_length_eq_zero h.symm; rfl
  | cons b bs ih =>
      cases rs with
      | nil => exact absurd h (Nat.succ_ne_zero _)
      | cons r rs =>
          have hlen : bs.length = rs.length := Nat.succ.inj h
          have hrest := ih hlen
          have hval := Nat.mod_add_div (a.val * b.val + r.val + (mulAdd a bs rs).2) β
          rw [mulAdd, value_cons, value_cons, value_cons, mulAdd_length a hlen, hlen, Fin.val_ofNat, List.length_cons,
            pow_succ]
          linarith only [hrest, congrArg (β ^ rs.length * ·) hval]

/-- The row of `as[k]`: the words of `result` from the one after `k` on take up the product with `bs`. -/
def mulRow (as bs result : List (Fin β)) (k : Nat) : List (Fin β) :=
  result.take (k + 1) ++ (mulAdd (as.getD k 0) bs ((result.drop (k + 1)).take bs.length)).1 ++
    result.drop (k + 1 + bs.length)

/-- The rows of the first `k` words of `as`, the last of them first. -/
def mulRows (as bs : List (Fin β)) : Nat → List (Fin β) → List (Fin β)
  | 0, result => result
  | k + 1, result => mulRows as bs k (mulRow as bs result k)

/-- The product, row by row, in as many words as both numbers have. -/
def mul (as bs : List (Fin β)) : List (Fin β) :=
  mulRows as bs as.length (List.replicate (as.length + bs.length) 0)

theorem mulRow_length {as bs result : List (Fin β)} {k : Nat} (hresult : result.length = as.length + bs.length)
    (hk : k < as.length) : (mulRow as bs result k).length = as.length + bs.length := by
  have hwindow : ((result.drop (k + 1)).take bs.length).length = bs.length := by
    rw [List.length_take, List.length_drop]
    omega
  rw [mulRow, List.length_append, List.length_append, mulAdd_length _ hwindow.symm, hwindow, List.length_take,
    List.length_drop]
  omega

/-- No carry leaves a row if the first word of `bs` is zero. -/
theorem value_mulRow {as bs result : List (Fin β)} {k : Nat} (hresult : result.length = as.length + bs.length)
    (hk : k < as.length) (hbs : value bs * β < β ^ bs.length)
    (hvalue : value result = value (as.drop (k + 1)) * value bs) :
    value (mulRow as bs result k) = value (as.drop k) * value bs := by
  obtain ⟨n, hn⟩ : ∃ n, n = as.length - (k + 1) := ⟨_, rfl⟩
  have hlow : value (as.drop (k + 1)) < β ^ n := by
    have hlt := value_lt (as.drop (k + 1))
    rwa [List.length_drop, ← hn] at hlt
  have hdrop : as.drop k = as.getD k 0 :: as.drop (k + 1) := by
    rw [List.getD_eq_getElem?_getD, List.getElem?_eq_getElem hk, Option.getD_some]
    exact List.drop_eq_getElem_cons hk
  -- the words that the row takes up, and those behind them
  obtain ⟨window, hwindow⟩ : ∃ window, window = (result.drop (k + 1)).take bs.length := ⟨_, rfl⟩
  obtain ⟨rest, hrest⟩ : ∃ rest, rest = result.drop (k + 1 + bs.length) := ⟨_, rfl⟩
  have hwindowLength : window.length = bs.length := by
    rw [hwindow, List.length_take, List.length_drop]
    omega
  have hrestLength : rest.length = n := by
    rw [hrest, List.length_drop]
    omega
  have hparts : result = result.take (k + 1) ++ (window ++ rest) := by
    rw [hwindow, hrest, ← List.drop_drop (j := k + 1), List.take_append_drop, List.take_append_drop]
  have hsplit := congrArg value hparts
  have hpos : 0 < β ^ n := Nat.pow_pos (Nat.pos_of_ne_zero (NeZero.ne β))
  have hzero : result.take (k + 1) = List.replicate (k + 1) 0 := by
    apply take_eq_replicate_zero (by omega)
    have hexp : result.length - (k + 1) = n + bs.length := by omega
    rw [hvalue, hexp, pow_add]
    have hbslt := value_lt bs
    exact Nat.mul_lt_mul_of_lt_of_le hlow (Nat.le_of_lt hbslt) (Nat.lt_of_le_of_lt (Nat.zero_le _) hbslt)
  rw [hzero, value_append, value_replicate_zero, Nat.mul_zero, Nat.add_zero, value_append, hrestLength] at hsplit
  have hrow := value_mulAdd (as.getD k 0) hwindowLength.symm
  rw [hwindowLength] at hrow
  have hcarry : (mulAdd (as.getD k 0) bs window).2 = 0 := by
    have hwindowLe : value window ≤ value bs := by
      have hle := Nat.mul_le_mul_right (value bs) (Nat.le_of_lt hlow)
      have hwindowLe : β ^ n * value window ≤ β ^ n * value bs := by omega
      exact Nat.le_of_mul_le_mul_left hwindowLe hpos
    have hword : (as.getD k 0).val * value bs + value window ≤ value bs * β := by
      have := Nat.mul_le_mul_right (value bs) (as.getD k 0).isLt
      rw [Nat.succ_mul] at this
      rw [Nat.mul_comm (value bs)]
      omega
    by_contra hne
    have := Nat.le_mul_of_pos_right (β ^ bs.length) (Nat.pos_of_ne_zero hne)
    omega
  rw [hcarry, Nat.mul_zero, Nat.add_zero] at hrow
  rw [mulRow, ← hwindow, ← hrest, hzero, value_append, value_append, value_replicate_zero, Nat.mul_zero, Nat.add_zero,
    hrestLength, hrow, hdrop, value_cons, List.length_drop, ← hn, Nat.add_mul, ← hvalue, hsplit]
  ring

theorem mulRows_length {as bs result : List (Fin β)} {k : Nat} (hresult : result.length = as.length + bs.length)
    (hk : k ≤ as.length) : (mulRows as bs k result).length = as.length + bs.length := by
  induction k generalizing result with
  | zero => exact hresult
  | succ k ih => exact ih (mulRow_length hresult hk) (Nat.le_of_lt hk)

theorem value_mulRows {as bs result : List (Fin β)} {k : Nat} (hresult : result.length = as.length + bs.length)
    (hk : k ≤ as.length) (hbs : value bs * β < β ^ bs.length) (hvalue : value result = value (as.drop k) * value bs) :
    value (mulRows as bs k result) = value as * value bs := by
  induction k generalizing result with
  | zero => exact hvalue
  | succ k ih => exact ih (mulRow_length hresult hk) (Nat.le_of_lt hk) (value_mulRow hresult hk hbs hvalue)

theorem mul_length (as bs : List (Fin β)) : (mul as bs).length = as.length + bs.length :=
  mulRows_length List.length_replicate (Nat.le_refl _)

theorem value_mul {as bs : List (Fin β)} (hbs : value bs * β < β ^ bs.length) :
    value (mul as bs) = value as * value bs := by
  refine value_mulRows List.length_replicate (Nat.le_refl _) hbs ?_
  rw [value_replicate_zero, List.drop_length, value_nil, Nat.zero_mul]

/-! ### Significant words -/

/-- The number of words from the first one on that is not zero. -/
def sigLength (ws : List (Fin β)) : Nat := (ws.dropWhile (· = 0)).length

theorem sigLength_le (ws : List (Fin β)) : sigLength ws ≤ ws.length := (List.dropWhile_suffix _).length_le

theorem value_dropWhile (ws : List (Fin β)) : value (ws.dropWhile (· = 0)) = value ws := by
  induction ws with
  | nil => rfl
  | cons w ws ih =>
      rw [List.dropWhile_cons]
      split
      case isTrue hw => rw [ih, value_cons, of_decide_eq_true hw, Fin.val_zero, Nat.mul_zero, Nat.add_zero]
      case isFalse => rfl

theorem sigLength_le_iff {ws : List (Fin β)} {n : Nat} : sigLength ws ≤ n ↔ value ws < β ^ n := by
  have hpos : 0 < β := Nat.pos_of_ne_zero (NeZero.ne β)
  rw [← value_dropWhile, sigLength]
  constructor
  · intro hle
    exact Nat.lt_of_lt_of_le (value_lt _) (Nat.pow_le_pow_right hpos hle)
  · intro hlt
    cases hws : ws.dropWhile (· = 0) with
    | nil => exact Nat.zero_le n
    | cons w rest =>
        have hw : w ≠ 0 := by
          have hhead := List.head_dropWhile_not (· = (0 : Fin β)) (hws ▸ List.cons_ne_nil w rest)
          simpa [hws] using hhead
        have hword : 0 < w.val := Nat.pos_of_ne_zero fun h => hw (Fin.ext h)
        rw [hws, value_cons] at hlt
        have hle := Nat.le_mul_of_pos_right (β ^ rest.length) hword
        by_contra hlen
        have hpow : β ^ n ≤ β ^ rest.length := Nat.pow_le_pow_right hpos (by rw [List.length_cons] at hlen; omega)
        omega

/-- The number of words before the first one that is not zero. -/
def leadingZeros (ws : List (Fin β)) : Nat := (ws.takeWhile (· = 0)).length

theorem leadingZeros_add_sigLength (ws : List (Fin β)) : leadingZeros ws + sigLength ws = ws.length := by
  rw [leadingZeros, sigLength, ← List.length_append, List.takeWhile_append_dropWhile]

theorem leadingZeros_take (ws : List (Fin β)) (n : Nat) : leadingZeros (ws.take n) = min n (leadingZeros ws) := by
  rw [leadingZeros, ← List.take_takeWhile, List.length_take]
  rfl

theorem leadingZeros_drop {ws : List (Fin β)} {n : Nat} (h : n ≤ leadingZeros ws) :
    n + leadingZeros (ws.drop n) = leadingZeros ws := by
  induction n generalizing ws with
  | zero => exact Nat.zero_add _
  | succ n ih =>
      cases ws with
      | nil => exact absurd h (Nat.not_succ_le_zero n)
      | cons w ws =>
          have hcons : leadingZeros (w :: ws) = if decide (w = 0) = true then leadingZeros ws + 1 else 0 := by
            rw [leadingZeros, List.takeWhile_cons]
            split <;> rfl
          rw [hcons] at h ⊢
          split at h
          case isTrue hw =>
            have hrest := ih (Nat.le_of_succ_le_succ h)
            rw [List.drop_succ_cons, if_pos hw]
            omega
          case isFalse => exact absurd h (Nat.not_succ_le_zero n)

/-- The words before the last `n` of a number that has no more than `n` significant ones do not count. -/
theorem value_drop {ws : List (Fin β)} {n : Nat} (h : value ws < β ^ n) :
    value (ws.drop (ws.length - n)) = value ws := by
  by_cases hn : n ≤ ws.length
  · have hzero : ws.take (ws.length - n) = List.replicate (ws.length - n) 0 :=
      take_eq_replicate_zero (Nat.sub_le _ _) (by rwa [Nat.sub_sub_self hn])
    conv_rhs => rw [← List.take_append_drop (ws.length - n) ws]
    rw [value_append, hzero, value_replicate_zero, Nat.mul_zero, Nat.add_zero]
  · rw [Nat.sub_eq_zero_of_le (by omega), List.drop_zero]

/-- What the radix is a multiple of leaves the same remainder of a number as of its last word. -/
theorem value_mod_of_dvd {d : Nat} (hd : d ∣ β) (ws : List (Fin β)) :
    value ws % d = (ws.getLastD 0).val % d := by
  cases List.eq_nil_or_concat ws with
  | inl hnil => rw [hnil]; rfl
  | inr hconcat =>
      obtain ⟨init, last, rfl⟩ := hconcat
      have hzero : β * value init % d = 0 := Nat.mod_eq_zero_of_dvd (Nat.dvd_mul_right_of_dvd hd _)
      rw [List.concat_eq_append, value_append, List.getLastD_concat, value_cons, value_nil, List.length_singleton,
        List.length_nil, pow_one, pow_zero, Nat.zero_add, Nat.one_mul, Nat.add_mod, hzero, Nat.add_zero, Nat.mod_mod]

/-! ### Comparisons -/

omit [NeZero β] in
/-- Whether the first words that differ are greater in the first number; `atEnd` if none differ. -/
def greaterFrom (atEnd : Bool) : List (Fin β) → List (Fin β) → Bool
  | a :: as, b :: bs => if a < b then false else if b < a then true else greaterFrom atEnd as bs
  | _, _ => atEnd

omit [NeZero β] in
theorem greaterFrom_iff {atEnd : Bool} {as bs : List (Fin β)} (h : as.length = bs.length) :
    greaterFrom atEnd as bs = true ↔ value bs < value as ∨ value bs = value as ∧ atEnd = true := by
  induction as generalizing bs with
  | nil =>
      cases List.eq_nil_of_length_eq_zero h.symm
      exact ⟨fun hend => .inr ⟨rfl, hend⟩, fun hor => hor.elim (absurd · (lt_irrefl _)) And.right⟩
  | cons a as ih =>
      cases bs with
      | nil => exact absurd h (Nat.succ_ne_zero _)
      | cons b bs =>
          have hlen : as.length = bs.length := Nat.succ.inj h
          have has := value_lt as
          have hbs := value_lt bs
          rw [greaterFrom, value_cons, value_cons, hlen]
          rw [hlen] at has
          have hstep {c d : Nat} (hlt : c < d) : β ^ bs.length * c + β ^ bs.length ≤ β ^ bs.length * d :=
            Nat.mul_le_mul_left _ (Nat.succ_le_of_lt hlt)
          split
          case isTrue hab =>
            have := hstep hab
            exact ⟨fun hfalse => absurd hfalse Bool.false_ne_true, fun hor => by omega⟩
          case isFalse hnlt =>
            split
            case isTrue hba =>
              have := hstep hba
              exact ⟨fun _ => .inl (by omega), fun _ => rfl⟩
            case isFalse hngt =>
              have hab : a = b := Fin.ext (Nat.le_antisymm (Nat.le_of_not_lt hngt) (Nat.le_of_not_lt hnlt))
              rw [hab, ih hlen, Nat.add_lt_add_iff_right, Nat.add_right_cancel_iff]

end Arithmetic

/-! ### Numbers of a fixed number of words -/

/-- A number in `n` words, the most significant one first. -/
structure Number (β n : Nat) where
  words : List (Fin β)
  length : words.length = n
  deriving DecidableEq

namespace Number

variable {n : Nat}

def value (a : Number β n) : Nat := Words.value a.words

theorem value_lt (a : Number β n) : a.value < β ^ n := by
  have hlt := Words.value_lt a.words
  rwa [a.length] at hlt

theorem value_injective {a b : Number β n} (h : a.value = b.value) : a = b := by
  cases a with
  | mk as ha =>
      cases b with
      | mk bs hb => cases Words.value_injective (ha.trans hb.symm) h; rfl

variable [NeZero β]

def zero : Number β n := ⟨List.replicate n 0, List.length_replicate⟩

/-! #### Sums and differences -/

def add (a b : Number β n) : Number β n :=
  ⟨(addCarry a.words b.words).1, (addCarry_length (a.length.trans b.length.symm)).trans b.length⟩

theorem value_add {a b : Number β n} (h : a.value + b.value < β ^ n) : (a.add b).value = a.value + b.value := by
  have hsum := value_addCarry (a.length.trans b.length.symm)
  rw [b.length] at hsum
  have hcarry : (addCarry a.words b.words).2 = 0 := by
    by_contra hne
    have hle := Nat.le_mul_of_pos_right (β ^ n) (Nat.pos_of_ne_zero hne)
    have hvalue : value a + value b = Words.value a.words + Words.value b.words := rfl
    omega
  rw [hcarry, Nat.mul_zero, Nat.add_zero] at hsum
  exact hsum

/-- The difference, without what the first word had to borrow. -/
def sub (a b : Number β n) : Number β n :=
  ⟨(subBorrow a.words b.words).1, (subBorrow_length (a.length.trans b.length.symm)).trans b.length⟩

theorem value_sub_add (a b : Number β n) :
    ∃ borrow ≤ 1, (a.sub b).value + b.value = a.value + β ^ n * borrow := by
  have hdiff := value_subBorrow (a.length.trans b.length.symm)
  rw [b.length] at hdiff
  exact ⟨_, subBorrow_borrow_le _ _, hdiff⟩

theorem value_sub {a b : Number β n} (h : b.value ≤ a.value) : (a.sub b).value = a.value - b.value := by
  obtain ⟨borrow, hle, hdiff⟩ := a.value_sub_add b
  have hlt := (a.sub b).value_lt
  have ha := a.value_lt
  cases Nat.le_one_iff_eq_zero_or_eq_one.mp hle with
  | inl hzero => rw [hzero] at hdiff; omega
  | inr hone => rw [hone] at hdiff; omega

/-- A greater number leaves a difference that lacks what was borrowed. -/
theorem value_sub_of_lt {a b : Number β n} (h : a.value < b.value) :
    (a.sub b).value + b.value = a.value + β ^ n := by
  obtain ⟨borrow, hle, hdiff⟩ := a.value_sub_add b
  cases Nat.le_one_iff_eq_zero_or_eq_one.mp hle with
  | inl hzero => rw [hzero] at hdiff; omega
  | inr hone => rw [hone] at hdiff; omega

/-! #### Halves and products -/

def half (a : Number β n) : Number β n := ⟨halve 0 a.words, (halve_length 0 a.words).trans a.length⟩

@[simp] theorem value_half (a : Number β n) : a.half.value = a.value / 2 := by
  have hhalf := value_halve (Nat.zero_le 1) a.words
  rwa [Nat.mul_zero, Nat.add_zero] at hhalf

/-- The product, in as many words as both numbers have. -/
def mul {m : Nat} (a : Number β m) (b : Number β n) : Number β (m + n) :=
  ⟨Words.mul a.words b.words, by rw [mul_length, a.length, b.length]⟩

theorem value_mul {m : Nat} {a : Number β m} {b : Number β n} (hb : b.value * β < β ^ n) :
    (a.mul b).value = a.value * b.value :=
  Words.value_mul (by rwa [b.length])

/-- A number times a word, without the carry out of the first word. -/
def mulWord (a : Number β n) (w : Fin β) : Number β n :=
  ⟨(mulAdd w a.words (List.replicate n 0)).1,
    (mulAdd_length w (a.length.trans List.length_replicate.symm)).trans List.length_replicate⟩

theorem value_mulWord {a : Number β n} {w : Fin β} (h : w * a.value < β ^ n) : (a.mulWord w).value = w * a.value := by
  have hrow := value_mulAdd w (a.length.trans (List.length_replicate (a := (0 : Fin β))).symm)
  rw [value_replicate_zero, Nat.add_zero, List.length_replicate] at hrow
  have hcarry : (mulAdd w a.words (List.replicate n 0)).2 = 0 := by
    by_contra hne
    have hle := Nat.le_mul_of_pos_right (β ^ n) (Nat.pos_of_ne_zero hne)
    have hvalue : value a = Words.value a.words := rfl
    rw [hvalue] at h
    omega
  rwa [hcarry, Nat.mul_zero, Nat.add_zero] at hrow

/-! #### Shifts -/

/-- The first word goes and the others move up, for a new last one. -/
def shiftIn (a : Number β (n + 1)) (w : Fin β) : Number β (n + 1) :=
  ⟨a.words.tail ++ [w], by rw [List.length_append, List.length_tail, a.length]; rfl⟩

theorem value_shiftIn {a : Number β (n + 1)} (h : a.value < β ^ n) (w : Fin β) :
    (a.shiftIn w).value = a.value * β + w := by
  have hdrop := value_drop h
  rw [a.length, Nat.add_sub_cancel_left, List.drop_one] at hdrop
  rw [value, shiftIn, value_append, hdrop, value_cons, value_nil, List.length_nil, List.length_singleton, pow_zero,
    pow_one, Nat.zero_add, Nat.one_mul, Nat.add_comm, Nat.mul_comm β]
  rfl

/-- The words that lie in the memory from `i` on. -/
def ofMemory (memory : List (Fin β)) (i : Nat) : Number β n :=
  ⟨List.ofFn fun j : Fin n => memory.getD (i + j) 0, List.length_ofFn⟩

theorem ofMemory_words {memory : List (Fin β)} {i : Nat} (h : i + n ≤ memory.length) :
    (ofMemory memory i : Number β n).words = (memory.drop i).take n := by
  apply List.ext_getElem
  · rw [ofMemory, List.length_ofFn, List.length_take, List.length_drop]
    omega
  · intro j hj _
    rw [ofMemory, List.length_ofFn] at hj
    simp only [ofMemory, List.getElem_ofFn, List.getElem_take, List.getElem_drop, List.getD_eq_getElem?_getD]
    rw [List.getElem?_eq_getElem (by omega), Option.getD_some]

theorem val_first (a : Number β (n + 1)) : (a.words.getD 0 0).val = a.value / β ^ n := by
  cases a with
  | mk words hlength =>
      cases words with
      | nil => exact absurd hlength (Nat.succ_ne_zero n).symm
      | cons w ws =>
          have hlen : ws.length = n := Nat.succ.inj hlength
          have hlt := Words.value_lt ws
          rw [hlen] at hlt
          rw [value, value_cons, hlen, Nat.add_mul_div_left _ _ (Nat.pow_pos (Nat.pos_of_ne_zero (NeZero.ne β))),
            Nat.div_eq_of_lt hlt, Nat.zero_add]
          rfl

theorem val_word (a : Number β (n + 1)) {j : Nat} (hj : j ≤ n) :
    (a.words.getD (n - j) 0).val = a.value / β ^ j % β := by
  have hlt : n - j < a.words.length := by
    rw [a.length]
    omega
  have hsplit := List.take_append_drop (n - j) a.words
  rw [List.drop_eq_getElem_cons hlt] at hsplit
  have hlow : (a.words.drop (n - j + 1)).length = j := by
    rw [List.length_drop, a.length]
    omega
  have hrest := Words.value_lt (a.words.drop (n - j + 1))
  have hpos : 0 < β ^ j := Nat.pow_pos (Nat.pos_of_ne_zero (NeZero.ne β))
  rw [hlow] at hrest
  rw [value, ← hsplit, value_append, value_cons, List.length_cons, hlow, pow_succ, Nat.mul_assoc, Nat.add_assoc,
    ← Nat.mul_add, Nat.add_mul_div_left _ _ hpos, Nat.div_eq_of_lt hrest, Nat.zero_add, Nat.add_mul_mod_self_left,
    Nat.mod_eq_of_lt (Fin.isLt _), hsplit, List.getD_eq_getElem _ _ hlt]

/-! #### Significant words -/

def sigLength (a : Number β n) : Nat := Words.sigLength a.words

theorem sigLength_le (a : Number β n) : a.sigLength ≤ n := (Words.sigLength_le a.words).trans_eq a.length

theorem sigLength_le_iff {a : Number β n} {k : Nat} : a.sigLength ≤ k ↔ a.value < β ^ k := Words.sigLength_le_iff

/-- A length that is that of the significant words; for zero it may also be one. -/
def HasLength (a : Number β n) (len : Nat) : Prop := len = a.sigLength ∨ a.value = 0 ∧ len = 1

section HasLength

variable {a b : Number β n} {aLen bLen : Nat}

theorem HasLength.value_lt (h : a.HasLength aLen) : a.value < β ^ aLen := by
  cases h with
  | inl hlen => exact sigLength_le_iff.mp (Nat.le_of_eq hlen.symm)
  | inr hzero => rw [hzero.1]; exact Nat.pow_pos (Nat.pos_of_ne_zero (NeZero.ne β))

theorem HasLength.le_value (h : a.HasLength aLen) (hpos : 0 < a.value) {k : Nat} (hk : k < aLen) :
    β ^ k ≤ a.value := by
  cases h with
  | inl hlen =>
      by_contra hlt
      have := sigLength_le_iff.mpr (Nat.lt_of_not_le hlt)
      omega
  | inr hzero => omega

theorem HasLength.len_le_one (h : a.HasLength aLen) (hzero : a.value = 0) : aLen ≤ 1 := by
  cases h with
  | inl hlen =>
      rw [hlen]
      refine sigLength_le_iff.mpr ?_
      rw [hzero, pow_one]
      exact Nat.pos_of_ne_zero (NeZero.ne β)
  | inr hone => exact Nat.le_of_eq hone.2

theorem HasLength.len_pos (h : a.HasLength aLen) (hpos : 0 < a.value) : 0 < aLen := by
  by_contra hzero
  have hlt := h.value_lt
  rw [Nat.eq_zero_of_not_pos hzero, pow_zero] at hlt
  omega

theorem HasLength.lt_of_len_lt (ha : a.HasLength aLen) (hb : b.HasLength bLen) (hpos : 0 < a.value ∨ 0 < b.value)
    (hlen : bLen < aLen) : b.value < a.value := by
  have hvalue : 0 < a.value := by
    by_contra hzero
    have hone := ha.len_le_one (Nat.eq_zero_of_not_pos hzero)
    have hbpos := hb.len_pos (hpos.resolve_left hzero)
    omega
  exact Nat.lt_of_lt_of_le hb.value_lt (ha.le_value hvalue hlen)

/-- The longer number is the greater one; of two as long as each other the words decide, and `atEnd` if they are the
same. -/
def compareFrom (atEnd : Bool) (a : Number β n) (aLen : Nat) (b : Number β n) (bLen : Nat) : Bool :=
  if bLen < aLen then true
  else if aLen < bLen then false
  else greaterFrom atEnd (a.words.drop (n - aLen)) (b.words.drop (n - aLen))

theorem compareFrom_iff {atEnd : Bool} (ha : a.HasLength aLen) (hb : b.HasLength bLen)
    (hpos : 0 < a.value ∨ 0 < b.value) :
    compareFrom atEnd a aLen b bLen = true ↔ b.value < a.value ∨ b.value = a.value ∧ atEnd = true := by
  rw [compareFrom]
  split
  case isTrue hlen => exact iff_of_true rfl (.inl (ha.lt_of_len_lt hb hpos hlen))
  case isFalse hle =>
    split
    case isTrue hlen =>
      have := hb.lt_of_len_lt ha hpos.symm hlen
      exact iff_of_false Bool.false_ne_true (by omega)
    case isFalse hge =>
      have hlen : bLen = aLen := by omega
      have hbval := hb.value_lt
      rw [hlen] at hbval
      have hadrop := value_drop ha.value_lt
      have hbdrop := value_drop hbval
      rw [a.length] at hadrop
      rw [b.length] at hbdrop
      rw [greaterFrom_iff (by rw [List.length_drop, List.length_drop, a.length, b.length]), hadrop, hbdrop]
      rfl

end HasLength

end Number

end Best1307.Words
