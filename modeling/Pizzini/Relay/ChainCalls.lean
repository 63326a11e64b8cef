import Pizzini.Relay.ChainValidatorDisk

/-!
# What `register` and `validate` answer

The crash argument looks at the files a call writes. Callers of a running relay
see only the map and the answer, and this module says once what these are:

- `validate_accepts`: an index beyond the cursor, within the chain and at most
  `MAX_VALIDATE_STEPS` ahead, with a value that hashes onto the cursor's, is
  accepted and becomes the cursor;
- `validate_outOfRange`: an index at or behind the cursor, past the end, or too
  far ahead is refused, and nothing changes;
- `register_fresh`: a new key is registered below both caps and refused at
  either of them.
-/

namespace Pizzini.Relay

open Wire

/-- Equal values have no differing bits. -/
theorem ctDiff_self (a : Bytes) : ctDiff a a = 0 := by
  have hfold : ∀ bs : Bytes,
      (bs.zip bs).foldl (fun diff xy => diff ||| (xy.1 ^^^ xy.2)) (0 : UInt8) = 0 := by
    intro bs
    induction bs with
    | nil => rfl
    | cons b bs ih =>
      rw [List.zip_cons_cons, List.foldl_cons, UInt8.xor_self, UInt8.or_zero]
      exact ih
  exact hfold a

variable {env : ChainEnv}

/-- Appending never touches the map. -/
theorem appendJournal_map (rand : Rand) (store : ChainValidatorStore) (peerId chainId : Bytes)
    (state : ChainState) :
    (appendJournal env rand store peerId chainId state).store.map = store.map := by
  simp only [appendJournal]
  split
  · split
    · rfl
    · rfl
  · rfl

/-- With a 33-byte peer the journal record always fits, so the append succeeds
and leaves the map alone. -/
theorem appendJournal_answer (henv : env.Lawful) (rand : Rand) (store : ChainValidatorStore)
    {k : ChainKey} (hk : k.1.length = 33) (state : ChainState) :
    (appendJournal env rand store k.1 k.2.1 state).result = .ok () ∧
      (appendJournal env rand store k.1 k.2.1 state).store.map = store.map := by
  have hsize : (journalCiphertext env rand store.key k.1 k.2.1 state).length < 2 ^ 32 :=
    (readable_journalCiphertext henv rand store.key hk state).lt
  refine ⟨?_, appendJournal_map rand store k.1 k.2.1 state⟩
  simp only [appendJournal, if_pos hsize]
  split
  · rfl
  · rfl

section Validate

/-- The state behind an accepted presentation. -/
def ChainState.advance (state : ChainState) (index : UInt32) (value : ChainValue) (now : UInt64) :
    ChainState :=
  { state with lastIndex := index, lastValue := value, lastUsedUnix := now }

variable {store : ChainValidatorStore} {k : ChainKey} {state : ChainState} {index : UInt32}
  {value : ChainValue}

/-- An index in range whose value hashes onto the cursor's value. -/
theorem validate_accepts (henv : env.Lawful) (rand : Rand) (now : UInt64) (hk : k.1.length = 33)
    (hlook : store.map.lookup k = some state) (hlt : state.lastIndex.toNat < index.toNat)
    (hlen : index.toNat ≤ state.length.toNat) (hnear : index.toNat ≤ state.lastIndex.toNat + 64)
    (hchain : env.blake3^[index.toNat - state.lastIndex.toNat] value = state.lastValue) :
    let call := validate env rand now store k.1 k.2 index value
    call.result = .ok .accepted ∧
      call.store.map = store.map.insert k (state.advance index value now) := by
  have hle : state.lastIndex ≤ index := UInt32.le_iff_toNat_le.mpr (by omega)
  have hdelta : (index - state.lastIndex).toNat = index.toNat - state.lastIndex.toNat :=
    UInt32.toNat_sub_of_le _ _ hle
  have hrange : ¬ (index = 0 ∨ index ≤ state.lastIndex ∨ state.length < index) := by
    rintro (rfl | hle | hlt')
    · simp at hlt
    · have := UInt32.le_iff_toNat_le.mp hle
      omega
    · have := UInt32.lt_iff_toNat_lt.mp hlt'
      omega
  have hsteps : ¬ MAX_VALIDATE_STEPS < index - state.lastIndex := by
    rw [UInt32.lt_iff_toNat_lt, hdelta]
    show ¬ 64 < _
    omega
  have hsame : ¬ ctDiff (env.blake3^[(index - state.lastIndex).toNat] value).1
      state.lastValue.1 ≠ 0 := by
    rw [hdelta, hchain, ctDiff_self]
    exact fun h => h rfl
  obtain ⟨hok, hmap⟩ := appendJournal_answer henv rand
    { store with map := store.map.insert k (state.advance index value now) } hk
    (state.advance index value now)
  simp only [validate, hlook, if_neg hrange, if_neg hsteps, if_neg hsame]
  exact ⟨congrArg (Except.map fun _ => ValidateOutcome.accepted) hok, hmap⟩

/-- An index that is not ahead of the cursor, past the end, or more than
`MAX_VALIDATE_STEPS` ahead. -/
theorem validate_outOfRange (env : ChainEnv) (rand : Rand) (now : UInt64) (index : UInt32)
    (value : ChainValue) (hlook : store.map.lookup k = some state)
    (hout : index.toNat ≤ state.lastIndex.toNat ∨ state.length.toNat < index.toNat ∨
      state.lastIndex.toNat + 64 < index.toNat) :
    let call := validate env rand now store k.1 k.2 index value
    call.result = .ok .outOfRange ∧ call.store = store := by
  by_cases hrange : index = 0 ∨ index ≤ state.lastIndex ∨ state.length < index
  · simp only [validate, hlook, if_pos hrange]
    exact ⟨trivial, trivial⟩
  · have hle : state.lastIndex ≤ index := by
      rw [not_or, not_or] at hrange
      exact UInt32.le_of_lt (UInt32.not_le.mp hrange.2.1)
    have hdelta : (index - state.lastIndex).toNat = index.toNat - state.lastIndex.toNat :=
      UInt32.toNat_sub_of_le _ _ hle
    have hsteps : MAX_VALIDATE_STEPS < index - state.lastIndex := by
      rw [not_or, not_or, UInt32.le_iff_toNat_le, UInt32.lt_iff_toNat_lt] at hrange
      rw [UInt32.lt_iff_toNat_lt, hdelta]
      show 64 < _
      omega
    simp only [validate, hlook, if_neg hrange, if_pos hsteps]
    exact ⟨trivial, trivial⟩

end Validate

section Register

variable {store : ChainValidatorStore} {reg : ChainRegistration}

/-- The number of chains an identity has in the store. -/
def chainsOf (map : Dict ChainKey ChainState) (peerId : Bytes) : Nat :=
  (map.keys.filter fun k => k.1 = peerId).length

/-- The state a registration starts from. -/
def freshState (reg : ChainRegistration) (now : UInt64) : ChainState where
  root := reg.root
  length := reg.length
  lastIndex := 0
  lastValue := reg.root
  registeredUnix := now
  lastUsedUnix := now

/-- Registering a key the store does not have. -/
theorem register_fresh (henv : env.Lawful) (rand : Rand) (now : UInt64)
    (store : ChainValidatorStore) (reg : ChainRegistration)
    (hlen : ¬ (reg.length = 0 ∨ MAX_CHAIN_LENGTH < reg.length))
    (hnew : store.map.lookup reg.key = none) :
    let call := register env rand now store reg
    if store.map.len < MAX_TOTAL_CHAINS ∧ chainsOf store.map reg.peerId.1 < MAX_CHAINS_PER_PEER then
      call.result = .ok .registered ∧
        call.store.map = store.map.insert reg.key (freshState reg now)
    else call.result = .ok .rejectedCap ∧ call.store = store := by
  have htake : MAX_CHAINS_PER_PEER ≤
      ((store.map.keys.filter fun k => k.1 = reg.peerId.1).take MAX_CHAINS_PER_PEER).length ↔
        MAX_CHAINS_PER_PEER ≤ chainsOf store.map reg.peerId.1 := by
    rw [List.length_take, chainsOf]
    omega
  by_cases htotal : MAX_TOTAL_CHAINS ≤ store.map.len
  · rw [if_neg (by omega)]
    simp only [register, if_neg hlen, hnew, if_pos htotal]
    exact ⟨trivial, trivial⟩
  · by_cases hpeer : MAX_CHAINS_PER_PEER ≤ chainsOf store.map reg.peerId.1
    · rw [if_neg (by omega)]
      simp only [register, if_neg hlen, hnew, if_neg htotal, if_pos (htake.mpr hpeer)]
      exact ⟨trivial, trivial⟩
    · rw [if_pos ⟨by omega, by omega⟩]
      obtain ⟨hok, hmap⟩ := appendJournal_answer henv rand
        { store with map := store.map.insert reg.key (freshState reg now) } (k := reg.key)
        reg.peerId.2 (freshState reg now)
      simp only [register, if_neg hlen, hnew, if_neg htotal, if_neg (mt htake.mp hpeer)]
      exact ⟨congrArg (Except.map fun _ => RegisterOutcome.registered) hok, hmap⟩

/-- A registration that went through was of a new key and a length in range, and
put the chain's cursor at its root. -/
theorem register_registered (henv : env.Lawful) (rand : Rand) (now : UInt64)
    (h : (register env rand now store reg).result = .ok .registered) :
    reg.length ≠ 0 ∧ reg.length.toNat ≤ 2 ^ 20 ∧
      (register env rand now store reg).store.map =
        store.map.insert reg.key (freshState reg now) := by
  by_cases hlen : reg.length = 0 ∨ MAX_CHAIN_LENGTH < reg.length
  · simp only [register, if_pos hlen] at h
    cases h
  · cases hold : store.map.lookup reg.key with
    | some existing =>
      simp only [register, if_neg hlen, hold] at h
      split at h
      · cases h
      · cases h
    | none =>
      have hspec := register_fresh henv rand now store reg hlen hold
      rw [not_or] at hlen
      refine ⟨hlen.1, ?_, ?_⟩
      · have := UInt32.not_lt.mp hlen.2
        exact UInt32.le_iff_toNat_le.mp this
      · simp only at hspec
        split at hspec
        · exact hspec.2
        · rw [hspec.1] at h
          cases h

/-- A registration adds its own key at most. -/
theorem register_lookup (env : ChainEnv) (rand : Rand) (now : UInt64) {k : ChainKey}
    (hk : k ≠ reg.key) :
    (register env rand now store reg).store.map.lookup k = store.map.lookup k := by
  simp only [register]
  split
  · rfl
  · split
    · split
      · rfl
      · rfl
    · split
      · rfl
      · split
        · rfl
        · show (appendJournal env rand _ _ _ _).store.map.lookup k = _
          rw [appendJournal_map]
          exact AList.lookup_insert_ne hk

end Register

/-- A validation adds no key. -/
theorem validate_lookup_isSome (rand : Rand) (now : UInt64) {store : ChainValidatorStore}
    {k : ChainKey} {peerId : Bytes} {chainId : ChainId} {index : UInt32} {value : ChainValue}
    (h : ((validate env rand now store peerId chainId index value).store.map.lookup k).isSome) :
    (store.map.lookup k).isSome := by
  simp only [validate] at h
  split at h
  · exact h
  · next state hlook =>
    split at h
    · exact h
    · split at h
      · exact h
      · split at h
        · exact h
        · rw [show (_ : Call ValidateOutcome).store.map = _ from appendJournal_map _ _ _ _ _] at h
          by_cases hk : k = (peerId, chainId)
          · rw [hk, hlook]
            rfl
          · rwa [AList.lookup_insert_ne hk] at h

/-- A collection adds no key. -/
theorem gcExpired_lookup_isSome (rand : Rand) (now maxAge : UInt64) {store : ChainValidatorStore}
    {k : ChainKey} (h : ((gcExpired env rand now maxAge store).store.map.lookup k).isSome) :
    (store.map.lookup k).isSome := by
  have hkept : (gcExpired env rand now maxAge store).store.map =
      store.map.retain fun _ state => decide (saturatingSub now maxAge < state.lastUsedUnix) := by
    simp only [gcExpired]
    split
    · rfl
    · rfl
  rw [hkept, AList.lookup_retain] at h
  obtain ⟨state, hstate⟩ := Option.isSome_iff_exists.mp h
  rw [(Option.filter_eq_some_iff.mp hstate).1]
  rfl

end Pizzini.Relay
