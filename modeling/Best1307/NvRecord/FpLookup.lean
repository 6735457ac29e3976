import Best1307.NvRecord.FpBindings

/-!
# Looking addresses up after a sequence of calls

A key that is added is the last one, and takes no address from a key that stays, unless it is put where a key with
addresses was. An address that is bound to a key is among its addresses, unless a copy of it was left behind their end.
-/

namespace Best1307.FpAccountKey

open SlotArray

/-! ### Runs -/

namespace Record

theorem rebuilt_valid : rebuilt.Valid ∧ rebuilt.Spare := by
  have hslot : ∀ i (hi : i < recordNum), rebuilt.accountKey[i] = ⟨0, .replicate _ (.replicate _ 0), .replicate _ 0⟩ :=
    fun i hi => Vector.getElem_replicate hi
  refine ⟨⟨Nat.zero_le _, List.nodup_nil, fun i hi => ?_⟩, fun i hi _ => ?_⟩
  · rw [hslot i hi]
    exact ⟨Nat.zero_le _, List.nodup_nil⟩
  · rw [hslot i hi]

theorem step_valid {s : Record} (h : s.Valid) (hspare : s.Spare) (call : Call) :
    (s.step call).Valid ∧ (s.step call).Spare := by
  cases call with
  | add key =>
      by_cases hmem : key ∈ s.keys
      · rw [step, add_of_mem h.keyCount_le hmem]
        exact ⟨h, hspare⟩
      · obtain ⟨hvalid, hspare, -⟩ := add_bindings h hspare hmem
        exact ⟨hvalid, hspare⟩
  | updateAddr i addr =>
      cases addr with
      | none => exact ⟨h, hspare⟩
      | some a =>
          by_cases hi : i < s.keyCount
          · rw [step, updateAddr_of_lt hi]
            exact ⟨modify_valid h hi (Entry.updateAddr_key · a) fun e => Entry.updateAddr_valid,
              modify_spare hspare hi _⟩
          · rw [step, updateAddr, if_pos (by omega)]
            exact ⟨h, hspare⟩
  | deleteAddr addr key =>
      rcases addr with _ | a
      · exact ⟨h, hspare⟩
      rcases key with _ | key
      · exact ⟨h, hspare⟩
      rcases deleteAddr_cases h a key with ⟨-, heq⟩ | ⟨i, hi, -, heq⟩
      · rw [step, heq]
        exact ⟨h, hspare⟩
      · rw [step, heq]
        exact ⟨modify_valid h hi (Entry.deleteAddr_key · a) fun e => Entry.deleteAddr_valid,
          modify_spare hspare hi _⟩

theorem foldl_step_valid {s : Record} (h : s.Valid) (hspare : s.Spare) (calls : List Call) :
    (calls.foldl step s).Valid ∧ (calls.foldl step s).Spare := by
  induction calls generalizing s with
  | nil => exact ⟨h, hspare⟩
  | cons call calls ih =>
      obtain ⟨h, hspare⟩ := step_valid h hspare call
      exact ih h hspare

theorem after_valid (calls : List Call) : (after calls).Valid ∧ (after calls).Spare :=
  foldl_step_valid rebuilt_valid.1 rebuilt_valid.2 calls

/-! ### Adding a key -/

variable {s : Record} {key : AccountKey}

theorem add_keys (h : s.Valid) (hspare : s.Spare) (hnew : key ∉ s.keys) :
    (s.add key).keys = (if s.keyCount = recordNum then s.keys.eraseIdx 1 else s.keys) ++ [key] := by
  rw [← keys_bindings, (add_bindings h hspare hnew).2.2, List.map_append, List.map_singleton, kept, ← keys_bindings]
  split
  · rw [List.eraseIdx_map]
  · rfl

theorem add_lastAddrs (h : s.Valid) (hspare : s.Spare) (hnew : key ∉ s.keys) :
    (s.add key).lastAddrs = if s.keyCount = recordNum then s.lastAddrs else [] := by
  rw [lastAddrs, (add_bindings h hspare hnew).2.2, List.getLast?_concat]
  rfl

/-- An address that the new key does not take over is looked up as before, if its key stays. -/
theorem add_getKeyByAddr (h : s.Valid) (hspare : s.Spare) (hnew : key ∉ s.keys) {a : BdAddr} {k : AccountKey}
    (htaken : s.keyCount = recordNum → a ∉ s.lastAddrs) (hfound : s.getKeyByAddr a = some k)
    (hk : k ∈ (s.add key).keys) : (s.add key).getKeyByAddr a = some k := by
  have hnone : a ∉ if s.keyCount = recordNum then s.lastAddrs else [] := by
    split
    case isTrue hfull => exact htaken hfull
    case isFalse => exact List.not_mem_nil
  rw [getKeyByAddr_eq_lookup] at hfound ⊢
  rw [(add_bindings h hspare hnew).2.2, lookup_append, lookup_singleton, if_neg hnone, Option.none_or, kept]
  by_cases hfull : s.keyCount = recordNum
  · rw [if_pos hfull]
    have hsecond : 1 < s.bindings.length := by
      rw [length_bindings h.keyCount_le, hfull]
      decide
    refine lookup_eraseIdx hsecond hfound ?_
    rintro rfl
    rw [add_keys h hspare hnew, if_pos hfull] at hk
    have hstored : s.bindings[1].1 ∈ s.keys := by
      rw [← keys_bindings]
      exact mem_keys_of_lookup hfound
    rcases List.mem_append.mp hk with hk | hk
    · obtain ⟨j, hj, hne, hsame⟩ := List.mem_eraseIdx_iff_getElem.mp hk
      have hsecond' : 1 < s.keys.length := by rwa [← keys_bindings, List.length_map]
      have hkey : s.bindings[1].1 = s.keys[1] := by
        simp only [← keys_bindings, List.getElem_map]
      exact hne ((h.nodup.getElem_inj_iff).mp (hsame.trans hkey))
    · exact hnew (List.mem_singleton.mp hk ▸ hstored)
  · rwa [if_neg hfull]

/-- A new key is the last one, and only a full table loses one for it: the earliest but the initial one. The others
stay in their order, each with its addresses. The new key starts without addresses where there is room, or where the
last key had none. An address that was not bound to the last key of a full table keeps its key, if that stays. -/
theorem add_keeps (calls : List Call) (key : AccountKey) (hnew : key ∉ (after calls).keys) :
    let s := after calls
    (s.add key).keys = (if s.keyCount = recordNum then s.keys.eraseIdx 1 else s.keys) ++ [key] ∧
    (s.add key).bindings =
      (if s.keyCount = recordNum then s.bindings.eraseIdx 1 else s.bindings) ++ [(key, (s.add key).lastAddrs)] ∧
    (s.keyCount < recordNum ∨ s.lastAddrs = [] → (s.add key).lastAddrs = []) ∧
    ∀ a k, (s.keyCount = recordNum → a ∉ s.lastAddrs) → s.getKeyByAddr a = some k → k ∈ (s.add key).keys →
      (s.add key).getKeyByAddr a = some k := by
  obtain ⟨h, hspare⟩ := after_valid calls
  refine ⟨add_keys h hspare hnew, add_lastAddrs h hspare hnew ▸ (add_bindings h hspare hnew).2.2, fun hempty => ?_,
    fun a k htaken hfound hk => add_getKeyByAddr h hspare hnew htaken hfound hk⟩
  rw [add_lastAddrs h hspare hnew]
  rcases hempty with hroom | hempty
  · exact if_neg (Nat.ne_of_lt hroom)
  · rw [hempty, ite_self]

/-! ### Binding and deleting an address -/

def addrsOf (s : Record) (i : Nat) : List BdAddr := (s.bindings[i]?.map (·.2)).getD []

/-- What is left behind the end of the list of the key at the index. -/
def behind (s : Record) (i : Nat) : List BdAddr := (s.accountKey[i]?.map fun e => e.addr.toList.drop e.count).getD []

/-- Binding `a` to the key at the index takes `b` from it, the oldest of as many addresses as it can have. -/
def Evicts (s : Record) (i : Nat) (a b : BdAddr) : Prop :=
  a ∉ s.addrsOf i ∧ (s.addrsOf i).length = sameKeyCount ∧ (s.addrsOf i).head? = some b

theorem addrsOf_of_lt (h : s.keyCount ≤ recordNum) {i : Nat} (hi : i < s.keyCount) :
    s.addrsOf i = (getElem s.accountKey i (Nat.lt_of_lt_of_le hi h)).addrs := by
  rw [addrsOf, List.getElem?_eq_getElem (by rw [length_bindings h]; exact hi), getElem_bindings h hi]
  rfl

theorem addrsOf_eq_getElem {i : Nat} (hi : i < s.bindings.length) : s.addrsOf i = s.bindings[i].2 := by
  rw [addrsOf, List.getElem?_eq_getElem hi]
  rfl

theorem addrsOf_modify (h : s.keyCount ≤ recordNum) {i : Nat} (hi : i < s.keyCount) (f : Entry → Entry) (j : Nat) :
    (s.modify i f).addrsOf j =
      if i = j then (f (getElem s.accountKey i (Nat.lt_of_lt_of_le hi h))).addrs else s.addrsOf j := by
  rw [addrsOf, modify_bindings h hi, List.getElem?_set, length_bindings h, if_pos hi]
  split <;> rfl

theorem getKeyByAddr_congr {t : Record} {b : BdAddr} (hkeys : t.keys = s.keys)
    (hmem : ∀ j, b ∈ t.addrsOf j ↔ b ∈ s.addrsOf j) : t.getKeyByAddr b = s.getKeyByAddr b := by
  rw [getKeyByAddr_eq_lookup, getKeyByAddr_eq_lookup]
  refine lookup_congr ?_ fun j hj hj' => ?_
  · rw [keys_bindings, keys_bindings, hkeys]
  · rw [← addrsOf_eq_getElem hj, ← addrsOf_eq_getElem hj']
    exact hmem j

/-- An address is looked up as the last key that has it. -/
theorem getKeyByAddr_eq_getElem {i : Nat} {a : BdAddr} (hmem : a ∈ s.addrsOf i)
    (hbehind : ∀ j, i < j → a ∉ s.addrsOf j) : s.getKeyByAddr a = s.keys[i]? := by
  have hi : i < s.bindings.length := by
    refine Nat.lt_of_not_le fun hle => ?_
    rw [addrsOf, List.getElem?_eq_none hle] at hmem
    exact List.not_mem_nil hmem
  rw [addrsOf_eq_getElem hi] at hmem
  rw [getKeyByAddr_eq_lookup, ← keys_bindings, List.getElem?_map, List.getElem?_eq_getElem hi, Option.map_some]
  refine lookup_eq_getElem hi hmem fun b hb => ?_
  obtain ⟨j, hj, rfl⟩ := List.mem_iff_getElem.mp hb
  rw [List.length_drop] at hj
  rw [List.getElem_drop, ← addrsOf_eq_getElem]
  exact hbehind _ (by omega)

theorem updateAddr_addrsOf (h : s.Valid) {i : Nat} {a : BdAddr} (hi : i < s.keyCount) (hbehind : a ∉ s.behind i) :
    a ∈ (s.updateAddr i (some a)).addrsOf i ∧ ∀ j b, b ≠ a → (i = j → ¬s.Evicts i a b) →
      (b ∈ (s.updateAddr i (some a)).addrsOf j ↔ b ∈ s.addrsOf j) := by
  have hslots := Nat.lt_of_lt_of_le hi h.keyCount_le
  have hcount := (h.entry i hslots).count_le
  have haddrs := addrsOf_of_lt h.keyCount_le hi
  rw [updateAddr_of_lt hi]
  simp only [addrsOf_modify h.keyCount_le hi]
  by_cases hold : a ∈ s.accountKey[i].addr.toList
  · have hsame : s.accountKey[i].updateAddr a = s.accountKey[i] := if_pos hold
    rw [hsame, ← haddrs]
    refine ⟨?_, fun j b _ _ => ?_⟩
    · rw [← List.take_append_drop s.accountKey[i].count s.accountKey[i].addr.toList, List.mem_append] at hold
      rw [if_pos trivial, haddrs, Entry.addrs_eq_listed hcount]
      refine hold.resolve_right fun hrest => hbehind ?_
      rw [behind, Vector.getElem?_eq_getElem hslots]
      exact hrest
    · split
      case isTrue heq => rw [heq]
      case isFalse => exact Iff.rfl
  · obtain ⟨-, hnew⟩ := Entry.updateAddr_addrs hcount hold
    have hnot : a ∉ s.addrsOf i := haddrs ▸ fun hmem => hold (Entry.mem_of_mem_addrs hmem)
    rw [hnew, ← haddrs]
    refine ⟨?_, fun j b hb hevicts => ?_⟩
    · rw [if_pos trivial]
      exact List.mem_append_right _ (List.mem_singleton_self a)
    · split
      case isTrue heq =>
        subst heq
        rw [List.mem_append, List.mem_singleton, or_iff_left hb]
        split
        case isTrue hfull =>
          -- the oldest address goes
          have hlen : (s.addrsOf i).length = sameKeyCount := by rw [haddrs, Entry.length_addrs hcount, hfull]
          cases hlist : s.addrsOf i with
          | nil => exact Iff.rfl
          | cons oldest rest =>
              have hne : b ≠ oldest := by
                rintro rfl
                exact hevicts rfl ⟨hnot, hlen, by rw [hlist, List.head?_cons]⟩
              rw [List.tail_cons, List.mem_cons, or_iff_right hne]
        case isFalse => exact Iff.rfl
      case isFalse => exact Iff.rfl

theorem updateAddr_keys (h : s.Valid) {i : Nat} (hi : i < s.keyCount) (a : BdAddr) :
    (s.updateAddr i (some a)).keys = s.keys := by
  rw [updateAddr_of_lt hi]
  exact modify_keys h.keyCount_le hi (Entry.updateAddr_key · a)

theorem deleteAddr_addrsOf (h : s.Valid) (a : BdAddr) (key : AccountKey) :
    (s.deleteAddr (some a) (some key)).keys = s.keys ∧
    (∀ j, s.keys[j]? = some key → a ∉ (s.deleteAddr (some a) (some key)).addrsOf j) ∧
    ∀ j b, b ≠ a ∨ s.keys[j]? ≠ some key → (b ∈ (s.deleteAddr (some a) (some key)).addrsOf j ↔ b ∈ s.addrsOf j) := by
  rcases deleteAddr_cases h a key with ⟨hnone, heq⟩ | ⟨i, hi, hkey, heq⟩
  · rw [heq]
    exact ⟨rfl, fun j hj => absurd (List.mem_of_getElem? hj) hnone, fun j b _ => Iff.rfl⟩
  have hslots := Nat.lt_of_lt_of_le hi h.keyCount_le
  have hlen := length_keys h.keyCount_le
  have hplace : s.keys[i]? = some key := by
    rw [← keys_bindings, List.getElem?_map, List.getElem?_eq_getElem (by rw [length_bindings h.keyCount_le]; exact hi),
      getElem_bindings h.keyCount_le hi]
    exact congrArg some hkey
  have honly : ∀ j, s.keys[j]? = some key → i = j := by
    intro j hj
    exact (List.getElem?_inj (by rw [hlen]; exact hi) h.nodup).mp (hplace.trans hj.symm)
  obtain ⟨-, haddrs⟩ := Entry.deleteAddr_addrs (h.entry i hslots).count_le a
  rw [heq]
  simp only [addrsOf_modify h.keyCount_le hi, haddrs]
  refine ⟨modify_keys h.keyCount_le hi (Entry.deleteAddr_key · a), fun j hj => ?_, fun j b hb => ?_⟩
  · rw [if_pos (honly j hj)]
    exact fun hmem => ((h.entry i hslots).nodup.mem_erase_iff.mp hmem).1 rfl
  · split
    case isTrue hij =>
      subst hij
      have hne : b ≠ a := hb.resolve_right (not_not_intro hplace)
      rw [List.mem_erase_of_ne hne, addrsOf_of_lt h.keyCount_le hi]
    case isFalse => exact Iff.rfl

/-- An address that is bound to a key is among its addresses, if no copy of it is behind their end, and is looked up as
that key if no later one has it. An address that is deleted is not among the addresses of the key it is deleted from.
Both leave the keys and the other addresses alone, but a key with as many addresses as it can have loses the oldest. -/
theorem addresses_kept (calls : List Call) (i : Nat) (a : BdAddr) (key : AccountKey) :
    let s := after calls
    (i < s.keyCount → a ∉ s.behind i →
      (s.updateAddr i (some a)).keys = s.keys ∧ a ∈ (s.updateAddr i (some a)).addrsOf i ∧
      ((∀ j, i < j → a ∉ s.addrsOf j) → (s.updateAddr i (some a)).getKeyByAddr a = s.keys[i]?) ∧
      ∀ b, b ≠ a → ¬s.Evicts i a b →
        (∀ j, b ∈ (s.updateAddr i (some a)).addrsOf j ↔ b ∈ s.addrsOf j) ∧
          (s.updateAddr i (some a)).getKeyByAddr b = s.getKeyByAddr b) ∧
    (s.deleteAddr (some a) (some key)).keys = s.keys ∧
    (∀ j, s.keys[j]? = some key → a ∉ (s.deleteAddr (some a) (some key)).addrsOf j) ∧
    (∀ j, s.keys[j]? ≠ some key → (a ∈ (s.deleteAddr (some a) (some key)).addrsOf j ↔ a ∈ s.addrsOf j)) ∧
    ∀ b, b ≠ a →
      (∀ j, b ∈ (s.deleteAddr (some a) (some key)).addrsOf j ↔ b ∈ s.addrsOf j) ∧
        (s.deleteAddr (some a) (some key)).getKeyByAddr b = s.getKeyByAddr b := by
  intro s
  obtain ⟨h, -⟩ : s.Valid ∧ s.Spare := after_valid calls
  obtain ⟨hkeys, hgone, hothers⟩ := deleteAddr_addrsOf h a key
  refine ⟨fun hi hbehind => ?_, hkeys, hgone, fun j hj => hothers j a (.inr hj), fun b hb => ?_⟩
  · obtain ⟨hmem, hsame⟩ := updateAddr_addrsOf h hi hbehind
    have hkeys := updateAddr_keys h hi a
    refine ⟨hkeys, hmem, fun hlater => ?_, fun b hb hevicts => ?_⟩
    · rw [← hkeys]
      refine getKeyByAddr_eq_getElem hmem fun j hj hin => hlater j hj ?_
      rw [updateAddr_of_lt hi, addrsOf_modify h.keyCount_le hi, if_neg (Nat.ne_of_lt hj)] at hin
      exact hin
    · have hall (j : Nat) := hsame j b hb fun _ => hevicts
      exact ⟨hall, getKeyByAddr_congr hkeys hall⟩
  · have hall (j : Nat) := hothers j b (.inl hb)
    exact ⟨hall, getKeyByAddr_congr hkeys hall⟩

end Record

/-! ### Tables that are full -/

def someKey (n : UInt8) : AccountKey := .replicate 16 n

def someAddr (n : UInt8) : BdAddr := .replicate 6 n

/-- Five keys, with an address bound to the last. -/
def fullTable : List Call :=
  [.add (someKey 1), .add (someKey 2), .add (someKey 3), .add (someKey 4), .add (someKey 5),
    .updateAddr 4 (some (someAddr 1))]

theorem fullTable_keeps :
    ((Record.after fullTable).add (someKey 6)).bindings = [(someKey 1, []), (someKey 3, []), (someKey 4, []),
      (someKey 5, [someAddr 1]), (someKey 6, [someAddr 1])] :=
  (Record.add_keeps fullTable (someKey 6) (by decide)).2.1.trans (by decide)

/-- The sixth key takes over the address of the fifth, and the second one is dropped for it. -/
theorem sixth_key_not_fresh :
    ¬∀ (calls : List Call) (key : AccountKey), key ∉ (Record.after calls).keys →
      let s := Record.after calls
      (s.add key).lastAddrs = [] ∧
      (s.add key).keys = (if s.keyCount = recordNum then s.keys.tail else s.keys) ++ [key] ∧
      ∀ a k, s.getKeyByAddr a = some k → k ∈ (s.add key).keys → (s.add key).getKeyByAddr a = some k :=
  fun h => absurd (h fullTable (someKey 6) (by decide)).2.1 (by decide)

/-- A key with three addresses. -/
def fullKey : List Call :=
  [.add (someKey 1), .updateAddr 0 (some (someAddr 1)), .updateAddr 0 (some (someAddr 2)),
    .updateAddr 0 (some (someAddr 3))]

theorem fullKey_kept :
    ((Record.after fullKey).updateAddr 0 (some (someAddr 4))).getKeyByAddr (someAddr 2) = some (someKey 1) := by
  have h := (Record.addresses_kept fullKey 0 (someAddr 4) (someKey 1)).1 (by decide) (by decide)
  have hnot : ¬ (Record.after fullKey).Evicts 0 (someAddr 4) (someAddr 2) := by
    rintro ⟨-, -, hhead⟩
    exact absurd hhead (by decide)
  exact (h.2.2.2 (someAddr 2) (by decide) hnot).2.trans (by decide)

/-- A fourth address takes the place of the first. -/
theorem fourth_address_not_kept :
    ¬∀ (calls : List Call) (i : Nat) (a : BdAddr) (key : AccountKey), i < (Record.after calls).keyCount →
      let s := Record.after calls
      (a ∈ (s.updateAddr i (some a)).addrsOf i ∧ (s.updateAddr i (some a)).getKeyByAddr a = s.keys[i]? ∧
        ∀ b k, b ≠ a → s.getKeyByAddr b = some k → (s.updateAddr i (some a)).getKeyByAddr b = some k) ∧
      (∀ j, a ∉ (s.deleteAddr (some a) (some key)).addrsOf j) ∧
      ∀ b k, b ≠ a → s.getKeyByAddr b = some k → (s.deleteAddr (some a) (some key)).getKeyByAddr b = some k :=
  fun h => absurd ((h fullKey 0 (someAddr 4) (someKey 1) (by decide)).1.2.2 (someAddr 1) (someKey 1) (by decide)
    (by decide)) (by decide)

end Best1307.FpAccountKey
