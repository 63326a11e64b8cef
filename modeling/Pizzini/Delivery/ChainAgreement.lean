import Pizzini.Delivery.SampleChain
import Pizzini.Relay.ChainSoundness

/-!
# The relay's validator and the stateless check

A token can be checked in two ways. `HashChainToken.verify` hashes it `index`
times and compares the result with the root. The relay's `validate` hashes it
only from its index down to that of the last token it has accepted, and compares
the result with that token.

- What `validate` accepts, in any state the store can be in, passes `verify`
  against the registered root and length.
- A chain from `mintChain`, once registered, is good for every token `nextToken`
  derives whose index is at most 64 ahead of the last one presented, and for no
  index a second time; the requests of others in between make no difference.

Both are in `validator_agrees_with_verify`.
-/

namespace Pizzini.Delivery

open Wire Relay Runs

variable (blake3 : Bytes → ChainValue)

/-! ## The stateless check (HashChainToken.swift:263–354) -/

/-- `constantTimeEquals`: sizes first, then the loop the relay has as well. -/
def constantTimeEquals (a b : Bytes) : Bool :=
  if a.length = b.length then ctDiff a b == 0 else false

/-- `verify`. That the value has 32 bytes is in the type of the token. -/
def verify (token : Token) (root : ChainValue) (length : Nat) : Bool :=
  if 1 ≤ token.index ∧ token.index ≤ length then
    constantTimeEquals (applyHash blake3 token.value token.index).1 root.1
  else false

/-- What the `n`-th call of `nextToken` returns. -/
def derived : Chain → Nat → Option Token
  | _, 0 => none
  | chain, 1 => (nextToken blake3 chain).map Prod.fst
  | chain, n + 2 => (nextToken blake3 chain).bind fun r => derived r.2 (n + 1)

variable {blake3}

theorem constantTimeEquals_iff (a b : Bytes) : constantTimeEquals a b = true ↔ a = b := by
  constructor
  · intro h
    unfold constantTimeEquals at h
    split at h
    next hlen => exact eq_of_ctDiff_eq_zero hlen (eq_of_beq h)
    next => cases h
  · rintro rfl
    rw [constantTimeEquals, if_pos rfl, ctDiff_self]
    rfl

theorem verify_iff {token : Token} {root : ChainValue} {length : Nat} :
    verify blake3 token root length = true ↔ (1 ≤ token.index ∧ token.index ≤ length) ∧
      applyHash blake3 token.value token.index = root := by
  unfold verify
  split
  next hindex => rw [constantTimeEquals_iff, Subtype.ext_iff, and_iff_right hindex]
  next hindex => exact ⟨nofun, fun h => absurd h.1 hindex⟩

/-- The calls of `nextToken` go through the indices in order. -/
theorem derived_eq_some {chain : Chain} {n : Nat} {token : Token} :
    derived blake3 chain (n + 1) = some token ↔
      chain.nextIndex + n ≤ chain.length ∧ token = tokenAt blake3 chain (chain.nextIndex + n) := by
  induction n generalizing chain with
  | zero =>
    rw [derived, Nat.add_zero]
    by_cases hnext : chain.nextIndex ≤ chain.length
    · rw [nextToken_eq hnext, and_iff_right hnext]
      exact Option.some_inj.trans eq_comm
    · rw [nextToken_exhausted (Nat.lt_of_not_le hnext)]
      exact ⟨nofun, fun h => absurd h.1 hnext⟩
  | succ n ih =>
    rw [derived]
    by_cases hnext : chain.nextIndex ≤ chain.length
    · rw [nextToken_eq hnext, Option.bind_some, ih, tokenAt_nextIndex, Nat.add_assoc,
        Nat.add_comm 1 n]
      exact Iff.rfl
    · rw [nextToken_exhausted (Nat.lt_of_not_le hnext)]
      refine ⟨nofun, fun h => absurd h.1 ?_⟩
      omega

/-- The tokens of a chain that was just minted. -/
theorem derived_mintChain {seed : ChainValue} {chainID : ChainId} {length i : Nat} {token : Token} :
    derived blake3 (mintChain blake3 seed chainID length) i = some token ↔
      (1 ≤ i ∧ i ≤ length) ∧ token = tokenAt blake3 (mintChain blake3 seed chainID length) i := by
  cases i with
  | zero => exact ⟨nofun, fun h => absurd h.1.1 (Nat.not_succ_le_zero 0)⟩
  | succ n =>
    rw [derived_eq_some]
    show 1 + n ≤ length ∧ _ = tokenAt blake3 _ (1 + n) ↔ _
    rw [Nat.add_comm 1 n]
    exact and_congr_left' (iff_and_self.mpr fun _ => Nat.succ_le_succ (Nat.zero_le n))

/-! ## What `validate` accepts -/

/-- An accepted token is on the chain that was registered. -/
theorem accepted_verifies {env : ChainEnv} (hsame : SameHash env blake3)
    {regs : List ChainRegistration} {store : ChainValidatorStore} (hmap : SoundMap env regs store.map) {k : ChainKey}
    {index : UInt32} {value : ChainValue} {rand : Rand} {now : UInt64}
    (hacc : (validate env rand now store k.1 k.2 index value).result = .ok .accepted) :
    ∃ state, ∃ reg ∈ regs, store.map.lookup k = some state ∧ reg.key = k ∧
      state.root = reg.root ∧ state.length = reg.length ∧
      verify blake3 ⟨k.2, index.toNat, value⟩ reg.root reg.length.toNat = true := by
  obtain ⟨old, hold, hchange⟩ := validate_change hacc
  have hsound := hchange.sound hmap nofun
  obtain ⟨reg, hreg, hkey, hroot, hlength⟩ := hsound.registered
  refine ⟨old, reg, hreg, hold, hkey, hroot, hlength, verify_iff.mpr ⟨⟨?_, ?_⟩, ?_⟩⟩
  · have hpast : old.lastIndex.toNat < index.toNat := hchange.supersedes.2.2 old hold
    exact Nat.lt_of_le_of_lt (Nat.zero_le _) hpast
  · rw [← hlength]
    exact UInt32.le_iff_toNat_le.mp hsound.inRange
  · have hhash : env.blake3 = fun v => blake3 v.1 := funext hsame
    rw [← hroot, applyHash, ← hhash]
    exact hsound.onChain

/-! ## Spending a chain -/

/-- A relay that runs, and a chain registered at it. -/
structure Spending where
  store : ChainValidatorStore
  /-- the greatest index presented so far -/
  last : Nat
  /-- when it was presented -/
  used : UInt64

/-- The request presents an index of the chain `k` beyond `last`. -/
def advances (k : ChainKey) (last : Nat) : Request → Option Nat
  | .validate peerId chainId index _ =>
    if (peerId, chainId) = k ∧ last < index.toNat then some index.toNat else none
  | _ => none

/-- A request of anybody. -/
def Spending.after (env : ChainEnv) (maxAge : UInt64) (k : ChainKey) (s : Spending)
    (call : Request × Rand × UInt64) : Spending where
  store := (perform env maxAge call.2.1 call.2.2 s.store call.1).1
  last := (advances k s.last call.1).getD s.last
  used := if (advances k s.last call.1).isSome then call.2.2 else s.used

/-- What is asked of the requests. On the chain `k`: a new index is at most
`MAX_VALIDATE_STEPS` ahead of the last one, and comes with the token `nextToken`
derives for it; an old one may come with anything. The chain does not idle until
it is collected. Nothing is asked of registrations and of other chains. -/
def SpendsInTurn (blake3 : Bytes → ChainValue) (maxAge : UInt64) (k : ChainKey) (chain : Chain)
    (s : Spending) (call : Request × Rand × UInt64) : Prop :=
  match call.1 with
  | .validate peerId chainId index value => (peerId, chainId) = k → s.last < index.toNat →
      index.toNat ≤ s.last + MAX_VALIDATE_STEPS.toNat ∧
        derived blake3 chain index.toNat = some ⟨chain.chainID, index.toNat, value⟩
  | .register _ => True
  | .gcExpired => saturatingSub call.2.2 maxAge < s.used

/-- Each next token is accepted, and no index up to the last one is. -/
structure Serves (env : ChainEnv) (blake3 : Bytes → ChainValue) (k : ChainKey) (chain : Chain)
    (store : ChainValidatorStore) (last : Nat) : Prop where
  accepts : ∀ token rand now, derived blake3 chain token.index = some token →
    last < token.index → token.index ≤ last + MAX_VALIDATE_STEPS.toNat →
      (validate env rand now store k.1 k.2 (.ofNat token.index) token.value).result =
        .ok .accepted
  refuses : ∀ index value rand now, index.toNat ≤ last →
    validate env rand now store k.1 k.2 index value = ⟨store, [], .ok .outOfRange⟩

/-- The entry of the chain is at the last index. -/
structure Spending.Inv (blake3 : Bytes → ChainValue) (k : ChainKey) (chain : Chain)
    (s : Spending) : Prop where
  cursor : ∃ state, s.store.map.lookup k = some state ∧ state.length.toNat = chain.length ∧
    state.lastIndex.toNat = s.last ∧
    state.lastValue = applyHash blake3 chain.seed (chain.length - s.last) ∧
    state.lastUsedUnix = s.used

section Run

variable {env : ChainEnv} {maxAge : UInt64} {k : ChainKey} {chain : Chain}

/-- A request that sets no entry for `k`, and does not collect it, leaves it. -/
theorem perform_lookup (rand : Rand) {now : UInt64} {store : ChainValidatorStore}
    {req : Request} {state : ChainState} (hstate : store.map.lookup k = some state)
    (hset : ∀ state', ¬ Change env now store req k state')
    (hgc : req = .gcExpired → saturatingSub now maxAge < state.lastUsedUnix) :
    (perform env maxAge rand now store req).1.map.lookup k = some state := by
  obtain hnoop | ⟨k', state', hchange, happend⟩ | ⟨hreq, hcompact⟩ :=
    perform_shape env maxAge rand now store req
  · rw [hnoop]
    exact hstate
  · rw [happend]
    show (appendJournal env rand _ k'.1 k'.2.1 state').store.map.lookup k = _
    rw [appendJournal_map]
    have hne : k ≠ k' := by
      rintro rfl
      exact hset state' hchange
    exact (AList.lookup_insert_ne hne).trans hstate
  · rw [hcompact]
    show (store.map.retain _).lookup k = _
    rw [AList.lookup_retain, hstate]
    exact if_pos (decide_eq_true (cutoff_lt_iff.mp (hgc hreq)))

/-- An index that is not ahead of the cursor: the call returns as it came. -/
theorem validate_behind {store : ChainValidatorStore} {state : ChainState}
    (hstate : store.map.lookup k = some state) {index : UInt32}
    (hle : index ≤ state.lastIndex) (value : ChainValue) (rand : Rand) (now : UInt64) :
    validate env rand now store k.1 k.2 index value = ⟨store, [], .ok .outOfRange⟩ := by
  have hrange : index = 0 ∨ index ≤ state.lastIndex ∨ state.length < index := .inr (.inl hle)
  simp only [validate, hstate, if_pos hrange]

namespace Spending.Inv

variable {s : Spending}

/-- A token in turn. -/
theorem accept (h : s.Inv blake3 k chain) (henv : env.Lawful) (hsame : SameHash env blake3)
    (hk : k.1.length = 33) {index : UInt32} (rand : Rand) (now : UInt64)
    (hend : index.toNat ≤ chain.length) (hpast : s.last < index.toNat)
    (hnear : index.toNat ≤ s.last + MAX_VALIDATE_STEPS.toNat) :
    let call := validate env rand now s.store k.1 k.2 index
      (tokenAt blake3 chain index.toNat).value
    call.result = .ok .accepted ∧
      Spending.Inv blake3 k chain ⟨call.store, index.toNat, now⟩ := by
  obtain ⟨state, hstate, hlength, hlast, hvalue, _⟩ := h.cursor
  have hhash : env.blake3 = fun v => blake3 v.1 := funext hsame
  have hchain : env.blake3^[index.toNat - state.lastIndex.toNat]
      (tokenAt blake3 chain index.toNat).value = state.lastValue := by
    rw [hlast, hvalue, hhash]
    exact applyHash_tokenAt chain (Nat.le_of_lt hpast) hend
  obtain ⟨hacc, hmap⟩ := validate_accepts henv rand now hk hstate (hlast ▸ hpast)
    (hlength ▸ hend) (hlast ▸ hnear) hchain
  refine ⟨hacc, ⟨state.advance index (tokenAt blake3 chain index.toNat).value now, ?_, hlength,
    rfl, rfl, rfl⟩⟩
  rw [hmap]
  exact AList.lookup_insert s.store.map

/-- A request in turn. -/
theorem step {seed : ChainValue} {chainID : ChainId} {length : Nat}
    (h : s.Inv blake3 k (mintChain blake3 seed chainID length)) (henv : env.Lawful)
    (hsame : SameHash env blake3) (hk : k.1.length = 33) {call : Request × Rand × UInt64}
    (hturn : SpendsInTurn blake3 maxAge k (mintChain blake3 seed chainID length) s call) :
    (s.after env maxAge k call).Inv blake3 k (mintChain blake3 seed chainID length) := by
  obtain ⟨state, hstate, hlength, hlast, hvalue, hused⟩ := h.cursor
  obtain ⟨req, rand, now⟩ := call
  -- a request that leaves the entry alone and does not count as a new index
  have hkept : advances k s.last req = none → (∀ state', ¬ Change env now s.store req k state') →
      (req = .gcExpired → saturatingSub now maxAge < state.lastUsedUnix) →
        (s.after env maxAge k (req, rand, now)).Inv blake3 k
          (mintChain blake3 seed chainID length) := by
    intro hadv hset hgc
    have hstate' := perform_lookup rand hstate hset hgc
    refine ⟨state, hstate', hlength, ?_, ?_, ?_⟩
    · simp only [Spending.after, hadv, Option.getD_none]
      exact hlast
    · simp only [Spending.after, hadv, Option.getD_none]
      exact hvalue
    · simp only [Spending.after, hadv, Option.isSome_none, Bool.false_eq_true, if_false]
      exact hused
  cases req with
  | register reg =>
    refine hkept rfl (fun state' hchange => ?_) nofun
    cases hchange with
    | register _ hnew _ _ =>
      rw [hnew] at hstate
      cases hstate
  | validate peerId chainId index value =>
    by_cases hnew : (peerId, chainId) = k ∧ s.last < index.toNat
    · obtain ⟨rfl, hpast⟩ := hnew
      obtain ⟨hnear, hderived⟩ := hturn rfl hpast
      obtain ⟨⟨_, hend⟩, htoken⟩ := derived_mintChain.mp hderived
      obtain rfl : value = _ := congrArg Token.value htoken
      obtain ⟨_, hinv⟩ := h.accept henv hsame hk rand now hend hpast hnear
      have hadv : advances (peerId, chainId) s.last (.validate peerId chainId index
          (tokenAt blake3 (mintChain blake3 seed chainID length) index.toNat).value) =
            some index.toNat := if_pos ⟨rfl, hpast⟩
      simp only [Spending.after, hadv, Option.getD_some, Option.isSome_some, if_true]
      exact hinv
    · refine hkept (if_neg hnew) (fun state' hchange => hnew ?_) nofun
      -- a change of the entry is one by an index ahead of it
      obtain ⟨_, _, hsup⟩ := hchange.supersedes
      have hpast := hsup state hstate
      cases hchange with
      | validate _ _ _ _ => exact ⟨rfl, hlast ▸ hpast⟩
  | gcExpired =>
    refine hkept rfl nofun fun _ => ?_
    rw [hused]
    exact hturn

theorem serves {seed : ChainValue} {chainID : ChainId} {length : Nat} (hlength : length < 2 ^ 32)
    (h : s.Inv blake3 k (mintChain blake3 seed chainID length)) (henv : env.Lawful)
    (hsame : SameHash env blake3) (hk : k.1.length = 33) :
    Serves env blake3 k (mintChain blake3 seed chainID length) s.store s.last where
  accepts := by
    intro token rand now hderived hpast hnear
    obtain ⟨⟨_, hend⟩, htoken⟩ := derived_mintChain.mp hderived
    have hindex : (UInt32.ofNat token.index).toNat = token.index :=
      UInt32.toNat_ofNat_of_lt' (Nat.lt_of_le_of_lt hend hlength)
    have hvalue : token.value = (tokenAt blake3 (mintChain blake3 seed chainID length)
        (UInt32.ofNat token.index).toNat).value := by
      rw [hindex]
      exact congrArg Token.value htoken
    rw [hvalue]
    rw [← hindex] at hend hpast hnear
    exact (h.accept henv hsame hk rand now hend hpast hnear).1
  refuses := by
    intro index value rand now hle
    obtain ⟨state, hstate, _, hlast, _⟩ := h.cursor
    refine validate_behind hstate ?_ value rand now
    rw [UInt32.le_iff_toNat_le, hlast]
    exact hle

end Spending.Inv

/-- The chain is at its start when it is registered. -/
theorem spending_registered (henv : env.Lawful) {store : ChainValidatorStore}
    {seed : ChainValue} {chainID : ChainId} {length : Nat} {reg : ChainRegistration}
    {rand : Rand} {now : UInt64} (hroot : reg.root = (mintChain blake3 seed chainID length).root)
    (hlength : reg.length.toNat = length)
    (hok : (register env rand now store reg).result = .ok .registered) :
    Spending.Inv blake3 reg.key (mintChain blake3 seed chainID length)
      ⟨(register env rand now store reg).store, 0, now⟩ := by
  obtain ⟨_, _, hmap⟩ := register_registered henv rand now hok
  refine ⟨freshState reg now, ?_, hlength, rfl, hroot, rfl⟩
  rw [hmap]
  exact AList.lookup_insert store.map

end Run

/-! ## Agreement -/

/-- What holds of a store in every state a run can bring it to. -/
structure AgreesWithVerify (env : ChainEnv) (blake3 : Bytes → ChainValue) (maxAge : UInt64)
    (regs : List ChainRegistration) (store : ChainValidatorStore) : Prop where
  entries : ∀ k state, store.map.lookup k = some state →
    (1 ≤ state.length.toNat ∧ state.length.toNat ≤ 2 ^ 20) ∧ state.lastIndex ≤ state.length ∧
      env.blake3^[state.lastIndex.toNat] state.lastValue = state.root
  /-- accepted tokens pass `verify` against what was registered for the entry -/
  accepted : ∀ k index value rand now,
    (validate env rand now store k.1 k.2 index value).result = .ok .accepted →
      ∃ state, ∃ reg ∈ regs, store.map.lookup k = some state ∧ reg.key = k ∧
        state.root = reg.root ∧ state.length = reg.length ∧
        verify blake3 ⟨k.2, index.toNat, value⟩ reg.root reg.length.toNat = true
  /-- a minted chain that it registers serves its tokens in every order without gaps of
  more than `MAX_VALIDATE_STEPS` -/
  minted : ∀ seed chainID length reg rand now spent,
    reg.root = (mintChain blake3 seed chainID length).root → reg.length.toNat = length →
    (register env rand now store reg).result = .ok .registered →
    Reach (fun s call s' => s' = s.after env maxAge reg.key call)
      (SpendsInTurn blake3 maxAge reg.key (mintChain blake3 seed chainID length))
      ⟨(register env rand now store reg).store, 0, now⟩ spent →
    Serves env blake3 reg.key (mintChain blake3 seed chainID length) spent.store spent.last

/-- In every run of the store, with any failures, stops and restarts, its entries
are on their chains, it accepts only what `verify` does, and it serves the chains
`mintChain` makes. -/
theorem validator_agrees_with_verify {env : ChainEnv} {blake3 : Bytes → ChainValue}
    (henv : env.Lawful) (hsame : SameHash env blake3) {maxAge clock : UInt64} {s : FaultSys}
    {store : ChainValidatorStore}
    (hrun : Reach (FaultStep env maxAge) (Authentic env) (FaultSys.fresh clock) s)
    (hproc : s.sys.proc = some store) :
    AgreesWithVerify env blake3 maxAge s.registered store := by
  have hmap := entry_sound henv hrun hproc
  refine ⟨fun k state hk => ?_, fun k index value rand now hacc => ?_, ?_⟩
  · have hsound := hmap k state hk
    exact ⟨⟨hsound.pos, hsound.bounded⟩, hsound.inRange, hsound.onChain⟩
  · exact accepted_verifies hsame hmap hacc
  · intro seed chainID length reg rand now spent hroot hlength hok hspent
    have hinv : spent.Inv blake3 reg.key (mintChain blake3 seed chainID length) := by
      refine hspent.invariant (Spending.Inv blake3 reg.key (mintChain blake3 seed chainID length))
        (fun h hturn hafter => ?_) (spending_registered henv hroot hlength hok)
      subst hafter
      exact h.step henv hsame reg.peerId.2 hturn
    exact hinv.serves (hlength ▸ reg.length.toNat_lt) henv hsame reg.peerId.2

/-- The first process of the sample run, with the sample chain registered. -/
def sampleSpending : Spending :=
  ⟨(register plainEnv zeroRand 1 sampleStore (sampleRegistration sampleNamespace 3)).store, 0, 1⟩

/-- Its second token. -/
def sampleSecond : Request × Rand × UInt64 :=
  (.validate samplePeer.1 (sampleRegistration sampleNamespace 3).chainId 2
    (tokenAt plainBlake3 (sampleChain 3) 2).value, zeroRand, 1)

/-- The first token comes after the second, and is refused. -/
theorem validator_agrees_with_verify_overtaken :
    validate plainEnv zeroRand 1
        (sampleSpending.after plainEnv 100 (sampleRegistration sampleNamespace 3).key
          sampleSecond).store samplePeer.1 (sampleRegistration sampleNamespace 3).chainId 1
        (tokenAt plainBlake3 (sampleChain 3) 1).value =
      ⟨(sampleSpending.after plainEnv 100 (sampleRegistration sampleNamespace 3).key
        sampleSecond).store, [], .ok .outOfRange⟩ := by
  have hopen : FaultStep plainEnv 100 (FaultSys.fresh 1) (.done (.start zeroRand 1 1)) openedSys :=
    .done (sampleFirst_eq ▸ step_sampleFirst)
  have hagrees : AgreesWithVerify plainEnv plainBlake3 100 openedSys.registered sampleStore :=
    validator_agrees_with_verify plainEnv_lawful plainEnv_sameHash
      (Reach.refl.snoc hopen fun _ _ _ hkey => absurd hkey nofun) rfl
  have hok : (register plainEnv zeroRand 1 sampleStore
      (sampleRegistration sampleNamespace 3)).result = .ok .registered :=
    (register_fresh plainEnv_lawful zeroRand 1 sampleStore (sampleRegistration sampleNamespace 3)
      (by decide) rfl).1
  have hturn : SpendsInTurn plainBlake3 100 (sampleRegistration sampleNamespace 3).key (sampleChain 3)
      sampleSpending sampleSecond := by
    intro _ _
    exact ⟨by decide, derived_mintChain.mpr ⟨by decide, rfl⟩⟩
  have hlast : (sampleSpending.after plainEnv 100 (sampleRegistration sampleNamespace 3).key
      sampleSecond).last = 2 := by
    have hadv : advances (sampleRegistration sampleNamespace 3).key sampleSpending.last
        sampleSecond.1 = some 2 := if_pos ⟨rfl, by decide⟩
    rw [Spending.after, hadv]
    rfl
  exact (hagrees.minted sampleSeed sampleChainID 3 (sampleRegistration sampleNamespace 3) zeroRand 1
    (sampleSpending.after plainEnv 100 (sampleRegistration sampleNamespace 3).key sampleSecond) rfl
    rfl hok (Reach.refl.snoc rfl hturn)).refuses 1 _ zeroRand 1
      (hlast ▸ by decide)

end Pizzini.Delivery
