import Best1307.NvRecord.FpAccountKey

/-!
# What the account keys are bound to

The table is a list of keys, each with the list of its addresses, and an address is looked up from its end. What the
three calls do is said in terms of that list; what a lookup yields after them follows from it.
-/

namespace Best1307.FpAccountKey

open SlotArray

/-! ### Lists of keys with their addresses -/

section Bindings

variable {κ α : Type*} [DecidableEq α] {bs bs' : List (κ × List α)} {a : α} {k : κ}

def lookup (bs : List (κ × List α)) (a : α) : Option κ := (bs.reverse.find? fun b => a ∈ b.2).map (·.1)

theorem lookup_append (bs bs' : List (κ × List α)) (a : α) :
    lookup (bs ++ bs') a = (lookup bs' a).or (lookup bs a) := by
  rw [lookup, List.reverse_append, List.find?_append, Option.map_or]
  rfl

theorem lookup_singleton (k : κ) (as : List α) (a : α) : lookup [(k, as)] a = if a ∈ as then some k else none := by
  by_cases h : a ∈ as
  · simp only [lookup, List.reverse_singleton, List.find?_singleton, h, decide_true, if_true, Option.map_some]
  · simp only [lookup, List.reverse_singleton, List.find?_singleton, h, decide_false, Bool.false_eq_true, if_false,
      Option.map_none]

theorem mem_keys_of_lookup (h : lookup bs a = some k) : k ∈ bs.map (·.1) := by
  obtain ⟨b, hb, rfl⟩ := Option.map_eq_some_iff.mp h
  exact List.mem_map_of_mem (List.mem_reverse.mp (List.mem_of_find?_eq_some hb))

theorem lookup_cons (b : κ × List α) (bs : List (κ × List α)) (a : α) :
    lookup (b :: bs) a = (lookup bs a).or (if a ∈ b.2 then some b.1 else none) := by
  rw [← lookup_singleton b.1 b.2 a]
  exact lookup_append [b] bs a

theorem lookup_split {i : Nat} (hi : i < bs.length) (a : α) :
    lookup bs a =
      ((lookup (bs.drop (i + 1)) a).or (if a ∈ bs[i].2 then some bs[i].1 else none)).or (lookup (bs.take i) a) := by
  have hsplit : bs.take i ++ bs[i] :: bs.drop (i + 1) = bs := by
    rw [← List.drop_eq_getElem_cons hi, List.take_append_drop]
  calc
    lookup bs a = lookup (bs.take i ++ bs[i] :: bs.drop (i + 1)) a := by rw [hsplit]
    _ = _ := by rw [lookup_append, lookup_cons]

theorem lookup_eq_none (h : ∀ b ∈ bs, a ∉ b.2) : lookup bs a = none := by
  rw [lookup, Option.map_eq_none_iff, List.find?_eq_none]
  intro b hb
  simpa using h b (List.mem_reverse.mp hb)

/-- Where no key behind it has the address, a key that has it is found. -/
theorem lookup_eq_getElem {i : Nat} (hi : i < bs.length) (hmem : a ∈ bs[i].2)
    (hbehind : ∀ b ∈ bs.drop (i + 1), a ∉ b.2) : lookup bs a = some bs[i].1 := by
  rw [lookup_split hi, lookup_eq_none hbehind, if_pos hmem, Option.none_or, Option.some_or]

theorem lookup_congr (hkeys : bs'.map (·.1) = bs.map (·.1))
    (hmem : ∀ i (hi : i < bs'.length) (hi' : i < bs.length), a ∈ bs'[i].2 ↔ a ∈ bs[i].2) :
    lookup bs' a = lookup bs a := by
  induction bs' generalizing bs with
  | nil =>
      rw [List.map_nil, List.nil_eq, List.map_eq_nil_iff] at hkeys
      rw [hkeys]
  | cons b' bs' ih =>
      cases bs with
      | nil => exact absurd hkeys (List.cons_ne_nil _ _)
      | cons b bs =>
          obtain ⟨hkey, hkeys⟩ := List.cons.inj hkeys
          have hrest : lookup bs' a = lookup bs a :=
            ih hkeys fun i hi hi' => hmem (i + 1) (Nat.succ_lt_succ hi) (Nat.succ_lt_succ hi')
          have hhere : a ∈ b'.2 ↔ a ∈ b.2 := hmem 0 (Nat.succ_pos _) (Nat.succ_pos _)
          have hsame : (if a ∈ b'.2 then some b'.1 else none) = if a ∈ b.2 then some b.1 else none :=
            if_congr hhere (congrArg some hkey) rfl
          rw [lookup_cons, lookup_cons, hrest, hsame]

theorem lookup_eraseIdx {i : Nat} (hi : i < bs.length) (h : lookup bs a = some k)
    (hk : k ≠ bs[i].1) : lookup (bs.eraseIdx i) a = some k := by
  rw [lookup_split hi] at h
  rw [List.eraseIdx_eq_take_drop_succ, lookup_append]
  by_cases hmem : a ∈ bs[i].2
  · rw [if_pos hmem] at h
    cases hrest : lookup (bs.drop (i + 1)) a with
    | none =>
        rw [hrest, Option.none_or, Option.some_or] at h
        exact absurd (Option.some.inj h).symm hk
    | some k' =>
        rw [hrest, Option.some_or, Option.some_or] at h
        rw [Option.some_or, h]
  · rwa [if_neg hmem, Option.or_none] at h

end Bindings

/-! ### Entries -/

def Entry.binding (e : Entry) : AccountKey × List BdAddr := (e.key, e.addrs)

structure Entry.Valid (e : Entry) : Prop where
  count_le : e.count ≤ sameKeyCount
  nodup : e.addrs.Nodup

namespace Entry

variable {e : Entry} {a : BdAddr}

theorem addrs_eq_listed (h : e.count ≤ sameKeyCount) : e.addrs = listed e.addr e.count := by
  rw [addrs, Nat.min_eq_left h]

theorem length_addrs (h : e.count ≤ sameKeyCount) : e.addrs.length = e.count := by
  rw [addrs_eq_listed h, length_listed _ h]

theorem mem_of_mem_addrs (h : a ∈ e.addrs) : a ∈ e.addr.toList := List.mem_of_mem_take h

theorem append_addrs (h : e.count < sameKeyCount) (a : BdAddr) :
    (e.append a).count ≤ sameKeyCount ∧ (e.append a).addrs = e.addrs ++ [a] := by
  refine ⟨h, ?_⟩
  rw [addrs_eq_listed (Nat.le_of_lt h), addrs_eq_listed (e := e.append a) h]
  simp only [append, writeSlot_of_lt h, Option.getD_some]
  exact listed_concat e.addr h a

/-- An address that is nowhere in the entry is put behind the others, in place of the oldest if there is no room. -/
theorem updateAddr_addrs (h : e.count ≤ sameKeyCount) (hnew : a ∉ e.addr.toList) :
    (e.updateAddr a).count ≤ sameKeyCount ∧
      (e.updateAddr a).addrs = (if e.count = sameKeyCount then e.addrs.tail else e.addrs) ++ [a] := by
  rw [updateAddr, if_neg hnew]
  by_cases hfull : e.count = sameKeyCount
  · have hlt : sameKeyCount - 1 < sameKeyCount := by decide
    have hshifted : listed (shiftDown e.addr 0) (sameKeyCount - 1) = e.addrs.tail := by
      rw [listed_shiftDown e.addr (by decide) (Nat.le_refl _), List.eraseIdx_zero, addrs_eq_listed h, hfull]
    rw [if_pos (Nat.le_of_eq hfull.symm), if_pos hfull]
    have happend := append_addrs (e := { e with addr := shiftDown e.addr 0, count := sameKeyCount - 1 }) hlt a
    rwa [addrs_eq_listed (e := { e with addr := shiftDown e.addr 0, count := sameKeyCount - 1 }) (Nat.le_of_lt hlt),
      hshifted] at happend
  · have hlt : e.count < sameKeyCount := Nat.lt_of_le_of_ne h hfull
    rw [if_neg (Nat.not_le.mpr hlt), if_neg hfull]
    exact append_addrs hlt a

theorem deleteAddr_addrs (h : e.count ≤ sameKeyCount) (a : BdAddr) :
    (e.deleteAddr a).count ≤ sameKeyCount ∧ (e.deleteAddr a).addrs = e.addrs.erase a := by
  rw [deleteAddr, List.erase_eq_eraseIdx, List.idxOf?]
  cases hfind : e.addrs.findIdx? (· == a) with
  | none => exact ⟨h, rfl⟩
  | some j =>
      obtain ⟨hj, -, -⟩ := List.findIdx?_eq_some_iff_getElem.mp hfind
      rw [length_addrs h] at hj
      have hlt : j < sameKeyCount := Nat.lt_of_lt_of_le hj h
      refine ⟨Nat.le_trans (Nat.sub_le _ _) h, ?_⟩
      rw [addrs_eq_listed h, addrs_eq_listed (Nat.le_trans (Nat.sub_le _ _) h)]
      simp only [writeSlot_of_lt hlt, Option.getD_some]
      by_cases hlast : j = sameKeyCount - 1
      · -- the last slot is only cleared
        have hcount : e.count = sameKeyCount := by omega
        subst hlast
        rw [if_neg (not_not_intro rfl), hcount]
        exact listed_set_last e.addr hlt _
      · rw [if_pos hlast]
        exact listed_shiftDown_set e.addr hj h _

theorem updateAddr_valid (h : e.Valid) : (e.updateAddr a).Valid := by
  by_cases hnew : a ∈ e.addr.toList
  · rwa [updateAddr, if_pos hnew]
  obtain ⟨hcount, haddrs⟩ := updateAddr_addrs h.count_le hnew
  refine ⟨hcount, ?_⟩
  have hold : (if e.count = sameKeyCount then e.addrs.tail else e.addrs).Sublist e.addrs := by
    split
    · exact List.tail_sublist _
    · exact List.Sublist.refl _
  rw [haddrs, List.nodup_append]
  refine ⟨h.nodup.sublist hold, List.nodup_singleton a, fun b hb c hc => ?_⟩
  rw [List.mem_singleton.mp hc]
  rintro rfl
  exact hnew (mem_of_mem_addrs (hold.subset hb))

theorem deleteAddr_valid (h : e.Valid) : (e.deleteAddr a).Valid := by
  obtain ⟨hcount, haddrs⟩ := deleteAddr_addrs h.count_le a
  exact ⟨hcount, haddrs ▸ h.nodup.erase a⟩

theorem updateAddr_key (e : Entry) (a : BdAddr) : (e.updateAddr a).key = e.key := by
  rw [updateAddr]
  split
  · rfl
  split
  · rfl
  · rfl

theorem deleteAddr_key (e : Entry) (a : BdAddr) : (e.deleteAddr a).key = e.key := by
  rw [deleteAddr]
  split <;> rfl

end Entry

/-! ### The table -/

structure Record.Valid (s : Record) : Prop where
  keyCount_le : s.keyCount ≤ recordNum
  nodup : s.keys.Nodup
  entry : ∀ i (hi : i < recordNum), s.accountKey[i].Valid

/-- Nothing is bound to the keys to come. -/
def Record.Spare (s : Record) : Prop := ∀ i (hi : i < recordNum), s.keyCount ≤ i → s.accountKey[i].count = 0

namespace Record

variable {s : Record} {a : BdAddr} {key : AccountKey} {i : Nat}

def bindings (s : Record) : List (AccountKey × List BdAddr) := s.entries.map Entry.binding

theorem keys_bindings (s : Record) : s.bindings.map (·.1) = s.keys := by
  rw [bindings, List.map_map]
  rfl

theorem getKeyByAddr_eq_lookup (s : Record) (a : BdAddr) : s.getKeyByAddr a = lookup s.bindings a := by
  rw [getKeyByAddr, lookup, bindings, ← List.map_reverse, List.find?_map, Option.map_map]
  refine congrArg _ (congrArg (List.find? · _) ?_)
  funext e
  exact decide_eq_decide.mpr Iff.rfl

theorem entries_eq_listed (h : s.keyCount ≤ recordNum) : s.entries = listed s.accountKey s.keyCount := by
  rw [entries, Nat.min_eq_left h]

theorem length_entries (h : s.keyCount ≤ recordNum) : s.entries.length = s.keyCount := by
  rw [entries_eq_listed h, length_listed _ h]

theorem length_keys (h : s.keyCount ≤ recordNum) : s.keys.length = s.keyCount := by
  rw [keys, List.length_map, length_entries h]

theorem length_bindings (h : s.keyCount ≤ recordNum) : s.bindings.length = s.keyCount := by
  rw [bindings, List.length_map, length_entries h]

theorem getElem_bindings (h : s.keyCount ≤ recordNum) (hi : i < s.keyCount) :
    getElem s.bindings i (by rw [length_bindings h]; exact hi) =
      (getElem s.accountKey i (Nat.lt_of_lt_of_le hi h)).binding := by
  have hlisted : i < (listed s.accountKey s.keyCount).length := by rwa [length_listed _ h]
  simp only [bindings, List.getElem_map, entries_eq_listed h]
  rw [getElem_listed s.accountKey hlisted]

/-! #### Changes of one entry -/

theorem modify_eq (hi : i < recordNum) (f : Entry → Entry) :
    s.modify i f = { s with accountKey := s.accountKey.set i (f s.accountKey[i]) hi } := by
  rw [modify, updateSlot_of_lt hi, Option.getD_some]

theorem modify_bindings (h : s.keyCount ≤ recordNum) (hi : i < s.keyCount) (f : Entry → Entry) :
    (s.modify i f).bindings = s.bindings.set i (f (getElem s.accountKey i (Nat.lt_of_lt_of_le hi h))).binding := by
  have hslots := Nat.lt_of_lt_of_le hi h
  have hcount : (s.modify i f).keyCount ≤ recordNum := h
  have hentries : (s.modify i f).entries = s.entries.set i (f s.accountKey[i]) := by
    rw [entries_eq_listed hcount, entries_eq_listed h, modify_eq hslots]
    exact listed_set s.accountKey hslots s.keyCount _
  rw [bindings, hentries, List.map_set, bindings]

theorem modify_keys (h : s.keyCount ≤ recordNum) (hi : i < s.keyCount) {f : Entry → Entry}
    (hkey : ∀ e, (f e).key = e.key) : (s.modify i f).keys = s.keys := by
  have hslots := Nat.lt_of_lt_of_le hi h
  have hbound : i < (s.bindings.map (·.1)).length := by rwa [List.length_map, length_bindings h]
  have hsame : (f s.accountKey[i]).binding.1 = (s.bindings.map (·.1))[i] := by
    rw [List.getElem_map, getElem_bindings h hi]
    exact hkey _
  rw [← keys_bindings, modify_bindings h hi, List.map_set, hsame, List.set_getElem_self, keys_bindings]

theorem modify_valid (h : s.Valid) (hi : i < s.keyCount) {f : Entry → Entry} (hkey : ∀ e, (f e).key = e.key)
    (hvalid : ∀ e, e.Valid → (f e).Valid) : (s.modify i f).Valid := by
  have hslots := Nat.lt_of_lt_of_le hi h.keyCount_le
  have hkeys := modify_keys h.keyCount_le hi hkey
  rw [modify_eq hslots] at hkeys ⊢
  refine ⟨h.keyCount_le, hkeys ▸ h.nodup, fun j hj => ?_⟩
  rw [Vector.getElem_set]
  split
  · exact hvalid _ (h.entry i hslots)
  · exact h.entry j hj

theorem modify_spare (h : s.Spare) (hi : i < s.keyCount) (f : Entry → Entry) : (s.modify i f).Spare := by
  intro j hj hspare
  have hle : s.keyCount ≤ j := hspare
  have hother := h j hj hle
  by_cases hslots : i < recordNum
  · simp only [modify_eq hslots]
    rwa [Vector.getElem_set_ne _ _ (by omega)]
  · omega

/-! #### A new key -/

def lastAddrs (s : Record) : List BdAddr := (s.bindings.getLast?.map (·.2)).getD []

/-- The keys that stay when a new one is added: all of them, or all but the earliest after the initial one. -/
def kept (s : Record) : List (AccountKey × List BdAddr) :=
  if s.keyCount = recordNum then s.bindings.eraseIdx 1 else s.bindings

theorem add_of_mem (h : s.keyCount ≤ recordNum) (hmem : key ∈ s.keys) : s.add key = s := by
  rw [keys, entries_eq_listed h] at hmem
  exact if_pos hmem

theorem append_bindings (h : s.Valid) (hroom : s.keyCount < recordNum) (hnew : key ∉ s.keys) :
    (s.append key).Valid ∧ (s.append key).bindings = s.bindings ++ [(key, s.accountKey[s.keyCount].addrs)] := by
  let e : Entry := { s.accountKey[s.keyCount] with key }
  have happend : s.append key = ⟨s.keyCount + 1, s.accountKey.set s.keyCount e⟩ := by
    rw [append, modify_eq hroom]
  have hcount : (s.append key).keyCount ≤ recordNum := hroom
  have hentries : (s.append key).entries = s.entries ++ [e] := by
    rw [entries_eq_listed hcount, entries_eq_listed h.keyCount_le, happend]
    exact listed_concat s.accountKey hroom e
  refine ⟨⟨hcount, ?_, fun i hi => ?_⟩, ?_⟩
  · rw [keys, hentries, List.map_append, List.map_singleton, List.nodup_append]
    refine ⟨h.nodup, List.nodup_singleton key, fun k hk k' hk' => ?_⟩
    rw [List.mem_singleton.mp hk']
    rintro rfl
    exact hnew hk
  · simp only [happend]
    rw [Vector.getElem_set]
    split
    · exact ⟨(h.entry _ hroom).count_le, (h.entry _ hroom).nodup⟩
    · exact h.entry i hi
  · rw [bindings, hentries, List.map_append, List.map_singleton]
    rfl

theorem discard_bindings (h : s.Valid) (hfull : s.keyCount = recordNum) :
    s.discard.Valid ∧ s.discard.bindings = s.bindings.eraseIdx 1 ∧
      s.discard.accountKey[recordNum - 1] = s.accountKey[recordNum - 1] := by
  have hcount : s.discard.keyCount ≤ recordNum := Nat.le_trans (Nat.sub_le _ _) h.keyCount_le
  have hentries : s.discard.entries = s.entries.eraseIdx 1 := by
    rw [entries_eq_listed hcount, entries_eq_listed h.keyCount_le]
    exact listed_shiftDown s.accountKey (by rw [hfull]; decide) h.keyCount_le
  refine ⟨⟨hcount, ?_, fun i hi => ?_⟩, ?_, ?_⟩
  · rw [keys, hentries, ← List.eraseIdx_map]
    exact h.nodup.sublist (List.eraseIdx_sublist _ _)
  · simp only [discard, shiftDown, Vector.getElem_ofFn]
    split
    · exact h.entry _ _
    · exact h.entry i hi
  · rw [bindings, hentries, ← List.eraseIdx_map, bindings]
  · exact getElem_shiftDown_last s.accountKey 1 _ (by decide)

theorem lastAddrs_of_full (h : s.Valid) (hfull : s.keyCount = recordNum) :
    s.lastAddrs = s.accountKey[recordNum - 1].addrs := by
  have hlast : recordNum - 1 < s.keyCount := by rw [hfull]; decide
  have hlen := length_bindings h.keyCount_le
  rw [lastAddrs, List.getLast?_eq_getElem?, hlen, hfull,
    List.getElem?_eq_getElem (by rw [hlen]; exact hlast), getElem_bindings h.keyCount_le hlast]
  rfl

/-- A new key is put behind those that stay. In a full table it has the addresses of the key that was there. -/
theorem add_bindings (h : s.Valid) (hspare : s.Spare) (hnew : key ∉ s.keys) :
    (s.add key).Valid ∧ (s.add key).Spare ∧
      (s.add key).bindings = s.kept ++ [(key, if s.keyCount = recordNum then s.lastAddrs else [])] := by
  have hadd : s.add key = if s.keyCount = recordNum then s.discard.append key else s.append key := by
    rw [add, if_neg]
    rwa [← entries_eq_listed h.keyCount_le]
  rw [hadd, kept]
  by_cases hfull : s.keyCount = recordNum
  · obtain ⟨hvalid, hbindings, hslot⟩ := discard_bindings h hfull
    have hcount : s.discard.keyCount = recordNum - 1 := congrArg (· - 1) hfull
    have hkey : key ∉ s.discard.keys := by
      rw [← keys_bindings, hbindings, ← List.eraseIdx_map, keys_bindings]
      exact fun hmem => hnew (List.mem_of_mem_eraseIdx hmem)
    obtain ⟨hvalid, happend⟩ := append_bindings hvalid (by rw [hcount]; decide) hkey
    simp only [hcount, hslot] at happend
    rw [if_pos hfull, if_pos hfull, if_pos hfull, lastAddrs_of_full h hfull, happend, hbindings]
    refine ⟨hvalid, fun i hi hle => ?_, rfl⟩
    have hall : s.discard.keyCount + 1 ≤ i := hle
    rw [hcount] at hall
    exact absurd hi (Nat.not_lt.mpr hall)
  · have hroom : s.keyCount < recordNum := Nat.lt_of_le_of_ne h.keyCount_le hfull
    obtain ⟨hvalid, happend⟩ := append_bindings h hroom hnew
    have hnone : s.accountKey[s.keyCount].addrs = [] := by
      have hzero := hspare s.keyCount hroom (Nat.le_refl _)
      rw [← List.length_eq_zero_iff, Entry.length_addrs (h.entry _ hroom).count_le, hzero]
    rw [if_neg hfull, if_neg hfull, if_neg hfull, happend, hnone]
    refine ⟨hvalid, fun i hi hle => ?_, rfl⟩
    have hother : s.keyCount < i := hle
    simp only [append, modify_eq hroom]
    rw [Vector.getElem_set_ne _ _ (Nat.ne_of_lt hother)]
    exact hspare i hi (Nat.le_of_lt hother)

/-! #### Addresses -/

theorem updateAddr_of_lt (hi : i < s.keyCount) (a : BdAddr) :
    s.updateAddr i (some a) = s.modify i (·.updateAddr a) := if_neg (by omega)

theorem deleteAddr_cases (h : s.Valid) (a : BdAddr) (key : AccountKey) :
    (key ∉ s.keys ∧ s.deleteAddr (some a) (some key) = s) ∨
      ∃ i, ∃ hi : i < s.keyCount, (getElem s.accountKey i (Nat.lt_of_lt_of_le hi h.keyCount_le)).key = key ∧
        s.deleteAddr (some a) (some key) = s.modify i (·.deleteAddr a) := by
  rw [deleteAddr]
  cases hfind : s.entries.findIdx? (·.key == key) with
  | none =>
      refine .inl ⟨fun hmem => ?_, rfl⟩
      obtain ⟨e, he, rfl⟩ := List.mem_map.mp hmem
      simpa using List.findIdx?_eq_none_iff.mp hfind e he
  | some i =>
      obtain ⟨hi, hkey, -⟩ := List.findIdx?_eq_some_iff_getElem.mp hfind
      rw [length_entries h.keyCount_le] at hi
      refine .inr ⟨i, hi, ?_, rfl⟩
      have hslots := Nat.lt_of_lt_of_le hi h.keyCount_le
      have hlisted : i < (listed s.accountKey s.keyCount).length := by rwa [length_listed _ h.keyCount_le]
      simp only [entries_eq_listed h.keyCount_le] at hkey
      rw [getElem_listed s.accountKey hlisted hslots]
      simpa using hkey

end Record

end Best1307.FpAccountKey
