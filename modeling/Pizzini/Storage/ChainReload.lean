import Pizzini.Delivery.IssuedTokens
import Pizzini.Delivery.SampleChain
import Pizzini.Storage.RowRoundTrips

/-!
# Tokens and chains in bytes (HashChainToken.swift:82–228, main.rs:511)

A token is written by the client and read by the relay, and by `HashChainToken.decode`. Both
read the same three fields; the relay refuses index 0 besides (`parseV2Token_eq_ok_iff`).

A chain is written with its cursor, and `decodeChain` gives back only a chain whose cursor is
in `[1, length + 1]`. `nextToken` stops one past the length, and a rollback goes back to an
index that was given out, so every chain the app can hold (`Held`) is one that it can read.
-/

namespace Pizzini.Delivery

open Wire Relay

variable {blake3 : Bytes → ChainValue}

/-! ## Tokens -/

theorem length_encode (token : Token) : (encode token).length = wireSize := by
  have hid : token.chainID.1.length = 16 := token.chainID.2
  have hvalue : token.value.1.length = 32 := token.value.2
  rw [encode, List.length_append, List.length_append, length_beBytes, hid, hvalue]
  rfl

/-- A token is read as it was written. -/
theorem decode_encode {token : Token} (hlt : token.index < 2 ^ 32) :
    decode (encode token) = some token := by
  have hid : token.chainID.1.length = CHAIN_ID_LEN := token.chainID.2
  have hvalue : token.value.1.length = CHAIN_VALUE_LEN := token.value.2
  have htake : (encode token).take CHAIN_ID_LEN = token.chainID.1 := List.take_left' hid
  have hdrop : (encode token).drop CHAIN_ID_LEN = beBytes 4 token.index ++ token.value.1 :=
    List.drop_left' hid
  have hindex : beNat (((encode token).drop CHAIN_ID_LEN).take 4) = token.index := by
    rw [hdrop, List.take_left' (length_beBytes 4 _), beNat_beBytes (by simpa using hlt)]
  have htail : (encode token).drop (CHAIN_ID_LEN + 4) = token.value.1 := by
    rw [← List.drop_drop, hdrop, List.drop_left' (length_beBytes 4 _)]
  rw [decode, dif_pos (length_encode token)]
  simp only [htake, hindex, htail, List.take_of_length_le hvalue.le]

/-- Every string of the token's size is one. -/
theorem exists_encode {wire : Bytes} (hlen : wire.length = wireSize) :
    ∃ token, token.index < 2 ^ 32 ∧ encode token = wire := by
  have hfour : ((wire.drop CHAIN_ID_LEN).take 4).length = 4 := by
    rw [List.length_take, List.length_drop, hlen]
    rfl
  have hlt := beNat_lt ((wire.drop CHAIN_ID_LEN).take 4)
  have hindex := beBytes_beNat ((wire.drop CHAIN_ID_LEN).take 4)
  rw [hfour] at hlt hindex
  refine ⟨⟨⟨wire.take CHAIN_ID_LEN, by rw [List.length_take, hlen]; rfl⟩,
    beNat ((wire.drop CHAIN_ID_LEN).take 4),
    ⟨wire.drop (CHAIN_ID_LEN + 4), by rw [List.length_drop, hlen]; rfl⟩⟩, hlt, ?_⟩
  show wire.take CHAIN_ID_LEN ++ (beBytes 4 (beNat ((wire.drop CHAIN_ID_LEN).take 4)) ++
    wire.drop (CHAIN_ID_LEN + 4)) = wire
  rw [hindex, ← List.drop_drop, List.take_append_drop, List.take_append_drop]

theorem length_of_decode {wire : Bytes} {token : Token} (h : decode wire = some token) :
    wire.length = wireSize := by
  rw [decode] at h
  split at h
  · assumption
  · cases h

/-- What is read fits its fields, and is written back to the same bytes. -/
theorem encode_decode {wire : Bytes} {token : Token} (h : decode wire = some token) :
    token.index < 2 ^ 32 ∧ encode token = wire := by
  obtain ⟨written, hlt, rfl⟩ := exists_encode (length_of_decode h)
  rw [decode_encode hlt] at h
  cases h
  exact ⟨hlt, rfl⟩

theorem length_of_parseV2Token {bytes : Bytes} {fields : ChainId × UInt32 × ChainValue}
    (h : parseV2Token bytes = .ok fields) : bytes.length = wireSize := by
  rw [parseV2Token] at h
  split at h
  · assumption
  · cases h

/-- A token with index 0 is refused. -/
theorem parseV2Token_encode_zero {token : Token} (h : token.index = 0) :
    parseV2Token (encode token) = .error .zeroIndex := by
  have hid : token.chainID.1.length = CHAIN_ID_LEN := token.chainID.2
  have hlen : (encode token).length = TOKEN_V2_LEN := length_encode token
  have hindex : beNat (((encode token).drop CHAIN_ID_LEN).take 4) = 0 := by
    rw [encode, List.drop_left' hid, List.take_left' (length_beBytes 4 _), h]
    rfl
  rw [parseV2Token, dif_pos hlen]
  simp only [hindex]
  rfl

/-- The relay reads what the client reads, but for index 0. -/
theorem parseV2Token_eq_ok_iff {bytes : Bytes} {chainId : ChainId} {index : UInt32}
    {value : ChainValue} :
    parseV2Token bytes = .ok (chainId, index, value) ↔
      decode bytes = some ⟨chainId, index.toNat, value⟩ ∧ index ≠ 0 := by
  constructor
  · intro h
    obtain ⟨token, hlt, rfl⟩ := exists_encode (length_of_parseV2Token h)
    have hpos : 0 < token.index := by
      refine Nat.pos_of_ne_zero fun hzero => ?_
      rw [parseV2Token_encode_zero hzero] at h
      cases h
    rw [parseV2Token_encode hpos hlt] at h
    cases h
    have hindex : (UInt32.ofNat token.index).toNat = token.index := UInt32.toNat_ofNat_of_lt' hlt
    rw [decode_encode hlt, hindex]
    refine ⟨rfl, fun hzero => ?_⟩
    rw [hzero] at hindex
    exact hpos.ne hindex
  · rintro ⟨hdecode, hne⟩
    have hpos : 0 < index.toNat := Nat.pos_of_ne_zero fun h => hne (UInt32.toNat_inj.mp h)
    rw [← (encode_decode hdecode).2, parseV2Token_encode hpos index.toNat_lt]
    simp only [UInt32.ofNat_toNat]

/-! ## Chains -/

/-- The chains that `mintChain` makes or a seed delivery brings, moved on by `nextToken`, and
back by `rollbackV2DeliveryToken` with the index of any token that was given out, of this
chain or of an earlier one. -/
inductive Held (blake3 : Bytes → ChainValue) : Chain → Prop where
  | mintChain (seed : ChainValue) (chainID : ChainId) {length : Nat} (positive : 0 < length) :
      Held blake3 (mintChain blake3 seed chainID length)
  | decodeSeedDelivery {wire : Bytes} {chain : Chain}
      (delivered : decodeSeedDelivery wire = some chain) : Held blake3 chain
  | nextToken {chain chain' : Chain} {token : Token} (held : Held blake3 chain)
      (minted : nextToken blake3 chain = some (token, chain')) : Held blake3 chain'
  | rollback {chain given given' : Chain} {token : Token} (held : Held blake3 chain)
      (givenHeld : Held blake3 given) (minted : nextToken blake3 given = some (token, given')) :
      Held blake3 (rollbackV2DeliveryToken chain token.index)

/-- The cursor is on a token of the chain, or behind the last one. -/
structure CursorInRange (chain : Chain) : Prop where
  pos : 1 ≤ chain.nextIndex
  le : chain.nextIndex ≤ chain.length + 1

/-- What `nextToken` gives: the token at the cursor, which is not behind the end. -/
theorem nextToken_cases {chain chain' : Chain} {token : Token}
    (h : nextToken blake3 chain = some (token, chain')) :
    chain.nextIndex ≤ chain.length ∧ token.index = chain.nextIndex ∧
      chain' = { chain with nextIndex := chain.nextIndex + 1 } := by
  by_cases hleft : chain.nextIndex ≤ chain.length
  · rw [nextToken_eq hleft] at h
    cases h
    exact ⟨hleft, rfl, rfl⟩
  · rw [nextToken_exhausted (Nat.lt_of_not_le hleft)] at h
    cases h

namespace CursorInRange

variable {chain chain' : Chain} {token : Token}

theorem nextToken (h : CursorInRange chain)
    (hminted : nextToken blake3 chain = some (token, chain')) : CursorInRange chain' := by
  obtain ⟨hleft, -, rfl⟩ := nextToken_cases hminted
  exact ⟨Nat.le_succ_of_le h.pos, Nat.succ_le_succ hleft⟩

/-- A rollback to an index that is not 0. -/
theorem rollback (h : CursorInRange chain) {mintedIndex : Nat} (hpos : 1 ≤ mintedIndex) :
    CursorInRange (rollbackV2DeliveryToken chain mintedIndex) := by
  rw [rollbackV2DeliveryToken]
  split
  · next hlast =>
    have hle := h.le
    exact ⟨hpos, by show mintedIndex ≤ chain.length + 1; omega⟩
  · exact h

end CursorInRange

theorem Held.cursor {chain : Chain} (h : Held blake3 chain) : CursorInRange chain := by
  induction h with
  | mintChain seed chainID positive => exact ⟨le_rfl, Nat.succ_le_succ (Nat.zero_le _)⟩
  | decodeSeedDelivery delivered =>
    have hfirst := (decodeSeedDelivery_eq_some delivered).1
    exact ⟨hfirst.ge, by omega⟩
  | nextToken _ minted ih => exact ih.nextToken minted
  | rollback _ _ minted ih ihGiven =>
    -- the token has the index that the other chain's cursor had
    obtain ⟨-, hindex, -⟩ := nextToken_cases minted
    exact ih.rollback (hindex.symm ▸ ihGiven.pos)

open Storage in
/-- A chain of this kind that is not too long is read as it was written. -/
theorem Held.storable {chain : Chain} (h : Held blake3 chain) (hpos : 1 ≤ chain.length)
    (hle : chain.length ≤ 2 ^ 20) : ChainStorable chain := by
  obtain ⟨hfirst, hlast⟩ := h.cursor
  exact ⟨by omega, by omega, hpos, hfirst, hlast⟩

/-! ## The chains of the contacts -/

namespace Outbound

variable {me : Bytes} {d d' : Outbound}

/-- Every contact's chain is one that was minted or delivered, and spent. -/
def ChainsHeld (blake3 : Bytes → ChainValue) (d : Outbound) : Prop :=
  ∀ peer chain, d.chain peer = some chain → Held blake3 chain

theorem ChainsHeld.update (h : d.ChainsHeld blake3) {peer : Bytes} {chain : Chain}
    (hheld : Held blake3 chain) (hchain : d'.chain = Function.update d.chain peer (some chain)) :
    d'.ChainsHeld blake3 := by
  intro peer' chain' hchain'
  rw [hchain] at hchain'
  rcases chain_update_cases hchain' with ⟨-, heq⟩ | ⟨-, hold⟩
  · cases heq
    exact hheld
  · exact h peer' chain' hold

theorem ChainsHeld.mint (h : d.ChainsHeld blake3) {peer : Bytes} {token : Token}
    (hmint : d.mintV2DeliveryToken blake3 peer = some (token, d')) : d'.ChainsHeld blake3 := by
  obtain ⟨chain, hchain, hleft, -, rfl⟩ := mint_eq_some_iff.mp hmint
  exact h.update (.nextToken (h peer chain hchain) (nextToken_eq hleft)) rfl

theorem ChainsHeld.move (h : d.ChainsHeld blake3) {m : Move} (hstep : Move.Step blake3 d m d') :
    d'.ChainsHeld blake3 := by
  cases hstep with
  | spend hmint | burn hmint | queue hmint | ship hmint | hold hmint | resend hmint
  | retry hmint =>
    have hminted := h.mint hmint
    exact hminted
  | install hchain => exact h.update (.decodeSeedDelivery hchain) rfl
  | _ => exact h

/-- Along every run, whatever fails in it. -/
theorem chainsHeld_of_reaches {ok : Outbound → Event → Prop} {now : Int}
    (h : Reaches blake3 me ok (start now) d) : d.ChainsHeld blake3 := by
  refine (h.invariant (fun d => d.Filed ∧ d.ChainsHeld blake3) ?_ ⟨start_filed now, nofun⟩).2
  rintro d ev _ ⟨hfiled, hheld⟩ - ⟨hdrawn, rfl⟩
  have hrun : Moves blake3 (fun _ _ => True) d (d.step blake3 me ev) :=
    step_moves (fun _ _ _ => trivial) hfiled.named hdrawn (allowed_all d ev)
  refine hrun.invariant (fun d => d.Filed ∧ d.ChainsHeld blake3) ?_ ⟨hfiled, hheld⟩
  rintro d m d' ⟨hfiled, hheld⟩ - hstep
  exact ⟨hfiled.move hstep, hheld.move hstep⟩

open Storage in
/-- So the chain of a contact that is stored is there after a relaunch. -/
theorem chain_reloads {ok : Outbound → Event → Prop} {now : Int}
    (h : Reaches blake3 me ok (start now) d) {peer : Bytes} {chain : Chain}
    (hchain : d.chain peer = some chain) (hpos : 1 ≤ chain.length)
    (hle : chain.length ≤ 2 ^ 20) :
    ∃ wire, boundChain (some chain) = some wire ∧ wire.bind decodeChain = some chain := by
  rw [chain_survives_iff]
  rintro _ ⟨⟩
  exact (chainsHeld_of_reaches h peer chain hchain).storable hpos hle

end Outbound

/-! ## The theorem -/

open Storage in
/-- A token is the same to the client and to the relay, written or read, and a chain that is
held comes back from its 88 bytes. -/
theorem token_and_chain_codecs_agree (blake3 : Bytes → ChainValue) :
    (∀ token : Token, 1 ≤ token.index → token.index < 2 ^ 32 →
      decode (encode token) = some token ∧
        ∃ index : UInt32, parseV2Token (encode token) = .ok (token.chainID, index, token.value) ∧
          index.toNat = token.index) ∧
      (∀ bytes fields, bytes.length = 52 → parseV2Token bytes = .ok fields →
        ∃ token, decode bytes = some token ∧ encode token = bytes) ∧
      ∀ chain, Held blake3 chain → 1 ≤ chain.length → chain.length ≤ 2 ^ 20 →
        (1 ≤ chain.nextIndex ∧ chain.nextIndex ≤ chain.length + 1) ∧
          ∃ wire, encodeChain chain = some wire ∧ decodeChain wire = some chain := by
  refine ⟨fun token hpos hlt => ?_, fun bytes fields _ hparse => ?_,
    fun chain hheld hpos hle => ?_⟩
  · exact ⟨decode_encode hlt, _, parseV2Token_encode hpos hlt, UInt32.toNat_ofNat_of_lt' hlt⟩
  · obtain ⟨chainId, index, value⟩ := fields
    obtain ⟨hdecode, -⟩ := parseV2Token_eq_ok_iff.mp hparse
    exact ⟨_, hdecode, (encode_decode hdecode).2⟩
  · obtain ⟨hlength, hnext, hrange⟩ := hheld.storable hpos hle
    obtain ⟨wire, hwire⟩ : ∃ wire, encodeChain chain = some wire := by
      rw [encodeChain, if_pos ⟨hlength, hnext⟩]
      exact ⟨_, rfl⟩
    refine ⟨hrange.2, wire, hwire, ?_⟩
    rw [decodeChain_of_encodeChain hwire, if_pos hrange]

/-- A chain of two tokens, the first of which was given out and taken back. -/
def sampleRolledBack : Chain :=
  rollbackV2DeliveryToken
    { mintChain plainBlake3 sampleSeed sampleChainID 2 with nextIndex := 2 } 1

theorem sampleRolledBack_held : Held plainBlake3 sampleRolledBack := by
  have hminted : nextToken plainBlake3 (mintChain plainBlake3 sampleSeed sampleChainID 2) =
      some (tokenAt plainBlake3 (mintChain plainBlake3 sampleSeed sampleChainID 2) 1,
        { mintChain plainBlake3 sampleSeed sampleChainID 2 with nextIndex := 2 }) :=
    nextToken_eq (Nat.le_succ 1)
  have hfresh : Held plainBlake3 (mintChain plainBlake3 sampleSeed sampleChainID 2) :=
    .mintChain sampleSeed sampleChainID (Nat.zero_lt_succ 1)
  exact .rollback (.nextToken hfresh hminted) hfresh hminted

open Storage in
theorem sampleRolledBack_reloads :
    ∃ wire, encodeChain sampleRolledBack = some wire ∧
      decodeChain wire = some sampleRolledBack :=
  ((token_and_chain_codecs_agree plainBlake3).2.2 sampleRolledBack sampleRolledBack_held
    (by decide) (by decide)).2

end Pizzini.Delivery
