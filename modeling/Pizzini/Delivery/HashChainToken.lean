import Pizzini.Relay.ChainCalls

/-!
# `HashChainToken.swift`: delivery tokens

A recipient picks a seed, hashes it `length` times and registers the result, the
root, at each relay. Whoever has the seed can spend the chain: token `i` is the
value `length − i` hashes above the seed (HashChainToken.swift:14–31), so the
relay gets from a token to any earlier one by hashing on.

The module has the sender's chain and tokens, the 52-byte wire form, and the
relay's `check_delivery_token` (main.rs:2218–2249) in front of `validate`. Its
result is `checkDeliveryToken_spec`: with the chain's cursor at `l`, the token
with index `i` is accepted, and becomes the cursor, exactly when
`l < i ≤ l + 64`; otherwise the store is as it was.

`Blake3.hash` is a parameter; the relay hashes with the same function
(`SameHash`).
-/

namespace Pizzini.Delivery

open Wire Relay

/-! ## Chains and tokens (HashChainToken.swift:39–140) -/

/-- `HashChainToken.Chain`. -/
structure Chain where
  chainID : ChainId
  seed : ChainValue
  length : Nat
  root : ChainValue
  nextIndex : Nat
  deriving DecidableEq

/-- `HashChainToken.Token`. -/
structure Token where
  chainID : ChainId
  index : Nat
  value : ChainValue
  deriving DecidableEq

/-- `Chain.isExhausted`. -/
def Chain.isExhausted (chain : Chain) : Bool := chain.length < chain.nextIndex

variable (blake3 : Bytes → ChainValue)

/-- `applyHash` (HashChainToken.swift:360–367). -/
def applyHash (input : ChainValue) (n : Nat) : ChainValue := (fun v => blake3 v.1)^[n] input

/-- `mintChain`, with the random seed and id it draws. -/
def mintChain (seed : ChainValue) (chainID : ChainId) (length : Nat) : Chain where
  chainID := chainID
  seed := seed
  length := length
  root := applyHash blake3 seed length
  nextIndex := 1

/-- `nextToken`: the token, and the chain with its cursor moved. -/
def nextToken (chain : Chain) : Option (Token × Chain) :=
  if chain.isExhausted then none
  else
    some
      ({ chainID := chain.chainID
         index := chain.nextIndex
         value := applyHash blake3 chain.seed (chain.length - chain.nextIndex) },
        { chain with nextIndex := chain.nextIndex + 1 })

/-- `relayScopedChainID` (HashChainToken.swift:240–250): the chain's name at one
relay. -/
def relayScopedChainID (baseChainID : ChainId) (relayNamespace : Bytes) : ChainId :=
  let material := "pizzini.delivery-token.relay-chain-id.v2".toUTF8.toList ++
    (beBytes 4 relayNamespace.length ++ (relayNamespace ++ baseChainID.1))
  ⟨(blake3 material).1.take CHAIN_ID_LEN, by rw [List.length_take, (blake3 material).2]; rfl⟩

/-- `relayScopedToken`. -/
def relayScopedToken (token : Token) (relayNamespace : Bytes) : Token :=
  { token with chainID := relayScopedChainID blake3 token.chainID relayNamespace }

/-- `HashChainToken.encode`: `chainID(16) ‖ index(4 BE) ‖ value(32)`. -/
def encode (token : Token) : Bytes :=
  token.chainID.1 ++ (beBytes 4 token.index ++ token.value.1)

/-- `HashChainToken.wireSize`. -/
def wireSize : Nat := 52

/-- `HashChainToken.decode`. An index of 0 is read as well. -/
def decode (wire : Bytes) : Option Token :=
  if h : wire.length = wireSize then
    some
      { chainID := ⟨wire.take CHAIN_ID_LEN, by rw [List.length_take, h]; rfl⟩
        index := beNat ((wire.drop CHAIN_ID_LEN).take 4)
        value := ⟨(wire.drop (CHAIN_ID_LEN + 4)).take CHAIN_VALUE_LEN, by
          rw [List.length_take, List.length_drop, h]; rfl⟩ }
  else none

/-- The registration `sendChainSeedDelivery` sends to one relay
(ChatStore.swift:3067–3078); `UInt32(chain.length)` traps on a longer chain. -/
def registration (peerId : FixedBytes 33) (relayNamespace : Bytes) (chain : Chain) :
    Option ChainRegistration :=
  if chain.length < 2 ^ 32 then
    some
      { peerId := peerId
        chainId := relayScopedChainID blake3 chain.chainID relayNamespace
        root := chain.root
        length := .ofNat chain.length }
  else none

/-! ## The relay's check (main.rs:505–530, 2218–2249) -/

def TOKEN_V2_LEN : Nat := 52

/-- Why a token is refused before or by the validator. -/
inductive TokenError where
  | wrongLength
  | zeroIndex
  | persistFailed (e : IoError)
  | unknownChain
  | replayOrOutOfRange
  | badChainValue

/-- `parse_v2_token`. -/
def parseV2Token (bytes : Bytes) : Except TokenError (ChainId × UInt32 × ChainValue) :=
  if h : bytes.length = TOKEN_V2_LEN then
    let index := UInt32.ofNat (beNat ((bytes.drop CHAIN_ID_LEN).take 4))
    if index = 0 then .error .zeroIndex
    else
      .ok (⟨bytes.take CHAIN_ID_LEN, by rw [List.length_take, h]; rfl⟩, index,
        ⟨bytes.drop (CHAIN_ID_LEN + 4), by rw [List.length_drop, h]; rfl⟩)
  else .error .wrongLength

/-- The answer of `check_delivery_token` to a validator outcome. -/
def outcomeAnswer : Except IoError ValidateOutcome → Except TokenError Unit
  | .error e => .error (.persistFailed e)
  | .ok .accepted => .ok ()
  | .ok .unknownChain => .error .unknownChain
  | .ok .outOfRange => .error .replayOrOutOfRange
  | .ok .badChainValue => .error .badChainValue

/-- `check_delivery_token`: the store behind the check, and the answer. -/
def checkDeliveryToken (env : ChainEnv) (rand : Rand) (now : UInt64) (store : ChainValidatorStore)
    (toId token : Bytes) : ChainValidatorStore × Except TokenError Unit :=
  match parseV2Token token with
  | .error e => (store, .error e)
  | .ok (chainId, index, value) =>
    let call := validate env rand now store toId chainId index value
    (call.store, outcomeAnswer call.result)

/-! ## What the check answers -/

/-- Client and relay hash with the same function. -/
def SameHash (env : ChainEnv) (blake3 : Bytes → ChainValue) : Prop :=
  ∀ v : ChainValue, env.blake3 v = blake3 v.1

/-- Token `i` of a chain. -/
def tokenAt (chain : Chain) (i : Nat) : Token where
  chainID := chain.chainID
  index := i
  value := applyHash blake3 chain.seed (chain.length - i)

variable {blake3}

theorem nextToken_eq {chain : Chain} (h : chain.nextIndex ≤ chain.length) :
    nextToken blake3 chain = some (tokenAt blake3 chain chain.nextIndex,
      { chain with nextIndex := chain.nextIndex + 1 }) := by
  rw [nextToken, Chain.isExhausted, if_neg (by simpa using h)]
  rfl

theorem nextToken_exhausted {chain : Chain} (h : chain.length < chain.nextIndex) :
    nextToken blake3 chain = none := by
  rw [nextToken, Chain.isExhausted, if_pos (by simpa using h)]

/-- Moving the cursor changes no token. -/
@[simp] theorem tokenAt_nextIndex (chain : Chain) (n i : Nat) :
    tokenAt blake3 { chain with nextIndex := n } i = tokenAt blake3 chain i := rfl

/-- Hashing a token on leads to every earlier one, and to the root. -/
theorem applyHash_tokenAt (chain : Chain) {i l : Nat} (hl : l ≤ i) (hi : i ≤ chain.length) :
    applyHash blake3 (tokenAt blake3 chain i).value (i - l) =
      applyHash blake3 chain.seed (chain.length - l) := by
  show (fun v : ChainValue => blake3 v.1)^[i - l] ((fun v => blake3 v.1)^[chain.length - i] _) = _
  rw [← Function.iterate_add_apply]
  have : i - l + (chain.length - i) = chain.length - l := by omega
  rw [this]
  rfl

/-- The relay reads back the token the client encoded. -/
theorem parseV2Token_encode {token : Token} (hpos : 0 < token.index)
    (hlt : token.index < 2 ^ 32) :
    parseV2Token (encode token) =
      .ok (token.chainID, UInt32.ofNat token.index, token.value) := by
  have hid : token.chainID.1.length = CHAIN_ID_LEN := token.chainID.2
  have hval : token.value.1.length = CHAIN_VALUE_LEN := token.value.2
  have hlen : (encode token).length = TOKEN_V2_LEN := by
    rw [encode, List.length_append, List.length_append, length_beBytes, hid, hval]
    rfl
  have hdrop : (encode token).drop CHAIN_ID_LEN = beBytes 4 token.index ++ token.value.1 := by
    rw [encode, List.drop_left' hid]
  have hindex : beNat (((encode token).drop CHAIN_ID_LEN).take 4) = token.index := by
    rw [hdrop, List.take_left' (length_beBytes 4 _), beNat_beBytes (by simpa using hlt)]
  have htail : (encode token).drop (CHAIN_ID_LEN + 4) = token.value.1 := by
    rw [← List.drop_drop, hdrop, List.drop_left' (length_beBytes 4 _)]
  have hne : UInt32.ofNat token.index ≠ 0 := by
    intro h
    have := congrArg UInt32.toNat h
    rw [UInt32.toNat_ofNat_of_lt' hlt] at this
    simp at this
    omega
  have hhead : (encode token).take CHAIN_ID_LEN = token.chainID.1 := by
    rw [encode, List.take_left' hid]
  rw [parseV2Token, dif_pos hlen]
  simp only [hindex, if_neg hne, htail, hhead]

/-- The relay's entry for `chain` under `k` stands at cursor `l`. -/
structure AtCursor (blake3 : Bytes → ChainValue) (store : ChainValidatorStore) (k : ChainKey)
    (chain : Chain) (l : Nat) : Prop where
  entry : ∃ state, store.map.lookup k = some state ∧ state.length.toNat = chain.length ∧
    state.lastIndex.toNat = l ∧ state.lastValue = applyHash blake3 chain.seed (chain.length - l)

/-- A registration puts the cursor before the first token. -/
theorem atCursor_of_registered {env : ChainEnv} (henv : env.Lawful) {rand : Rand} {now : UInt64}
    {store : ChainValidatorStore} {peerId : FixedBytes 33} {relayNamespace : Bytes}
    {seed : ChainValue} {chainID : ChainId} {length : Nat} {reg : ChainRegistration}
    (hreg : registration blake3 peerId relayNamespace (mintChain blake3 seed chainID length) =
      some reg)
    (hok : (register env rand now store reg).result = .ok .registered) :
    length ≤ 2 ^ 20 ∧
      AtCursor blake3 (register env rand now store reg).store
        (peerId.1, relayScopedChainID blake3 chainID relayNamespace)
        (mintChain blake3 seed chainID length) 0 := by
  obtain ⟨_, hmax, hmap⟩ := register_registered henv rand now hok
  have hlook : (register env rand now store reg).store.map.lookup reg.key =
      some (freshState reg now) := by
    rw [hmap]
    exact AList.lookup_insert store.map
  rw [registration] at hreg
  split at hreg
  · next hlt =>
    obtain rfl := Option.some.inj hreg
    have hlength : (UInt32.ofNat length).toNat = length := UInt32.toNat_ofNat_of_lt' hlt
    constructor
    · rw [← hlength]
      exact hmax
    · exact ⟨_, hlook, hlength, rfl, rfl⟩
  · cases hreg

section Check

variable {env : ChainEnv} {store : ChainValidatorStore} {peerId : FixedBytes 33}
  {relayNamespace : Bytes} {chain : Chain} {l i : Nat}

/-- What the relay answers to token `i` when the cursor is at `l`. -/
theorem checkDeliveryToken_spec (henv : env.Lawful) (hsame : SameHash env blake3) (rand : Rand)
    (now : UInt64) (hlen : chain.length ≤ 2 ^ 20)
    (hat : AtCursor blake3 store
      (peerId.1, relayScopedChainID blake3 chain.chainID relayNamespace) chain l)
    (hpos : 0 < i) (hi : i ≤ chain.length) :
    let r := checkDeliveryToken env rand now store peerId.1
      (encode (relayScopedToken blake3 (tokenAt blake3 chain i) relayNamespace))
    if l < i ∧ i ≤ l + 64 then
      r.2 = .ok () ∧ AtCursor blake3 r.1
        (peerId.1, relayScopedChainID blake3 chain.chainID relayNamespace) chain i
    else r.2 = .error .replayOrOutOfRange ∧ r.1 = store := by
  obtain ⟨state, hlook, hlength, hlast, hvalue⟩ := hat.entry
  have hfits : i < 2 ^ 32 := by omega
  have hindex : (UInt32.ofNat i).toNat = i := UInt32.toNat_ofNat_of_lt' hfits
  have hparse : parseV2Token (encode
      (relayScopedToken blake3 (tokenAt blake3 chain i) relayNamespace)) =
        .ok (relayScopedChainID blake3 chain.chainID relayNamespace, UInt32.ofNat i,
          (tokenAt blake3 chain i).value) :=
    parseV2Token_encode hpos hfits
  simp only [checkDeliveryToken, hparse]
  by_cases hwin : l < i ∧ i ≤ l + 64
  · rw [if_pos hwin]
    have hhash : env.blake3 = fun v => blake3 v.1 := funext hsame
    have hchain : env.blake3^[(UInt32.ofNat i).toNat - state.lastIndex.toNat]
        (tokenAt blake3 chain i).value = state.lastValue := by
      rw [hindex, hlast, hvalue, hhash]
      exact applyHash_tokenAt chain (Nat.le_of_lt hwin.1) hi
    obtain ⟨hacc, hmap⟩ := validate_accepts henv rand now
      (k := (peerId.1, relayScopedChainID blake3 chain.chainID relayNamespace)) peerId.2 hlook
      (by omega) (by omega) (by omega) hchain
    refine ⟨by rw [hacc]; rfl, ⟨state.advance (UInt32.ofNat i) (tokenAt blake3 chain i).value now,
      ?_, hlength, hindex, rfl⟩⟩
    rw [hmap]
    exact AList.lookup_insert store.map
  · rw [if_neg hwin]
    obtain ⟨hout, hstore⟩ := validate_outOfRange env rand now (UInt32.ofNat i)
      (tokenAt blake3 chain i).value
      (k := (peerId.1, relayScopedChainID blake3 chain.chainID relayNamespace)) hlook (by omega)
    exact ⟨by rw [hout]; rfl, hstore⟩

end Check

end Pizzini.Delivery
