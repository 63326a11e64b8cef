import Pizzini.Delivery.SampleChain

/-!
# Minting order and sending order

A client takes an index off a contact's chain when it seals a frame. Text
messages, ACKs and receipts hand the frame to the relay in the same step
(`sendV2`, `emitAck`, `emitReadReceiptIfEnabled`). The legs of a group message
are minted and sealed together and then wait, each for a random delay of up to
25 s (`sendGroupMessage`, ChatStoreGroups.swift:664–731). In between the client
goes on sending. The connection keeps the order of what it is given, so the relay
sees indices in sending order, and it only takes increasing ones.

`Link` is one client, one contact and one relay; `run` is any interleaving.
`Link.answers_iff` says which interleavings go through: those in which every
frame is handed over in its turn (`InTurn`), that is, no younger token has been
sent before it and it skips at most 63 tokens.
-/

namespace Pizzini.Delivery

open Wire Relay

/-- A client's chain to one contact, the group legs still in their delay, the
relay's store, and the index of the frame handed to the connection last (`0`
before the first). -/
structure Link where
  chain : Chain
  waiting : List Token
  relay : ChainValidatorStore
  lastSent : Nat

/-- What the client does next. -/
inductive SendEvent where
  /-- mint, seal and SEND in one step: a text, an ACK, a receipt -/
  | send (rand : Rand) (now : UInt64)
  /-- mint, then `encryptSealed` or `persistSession` fails; with or without
  `rollbackV2DeliveryToken` -/
  | abort (rolledBack : Bool)
  /-- mint and seal one leg of a group message -/
  | sealLeg
  /-- the delay of the `i`-th waiting leg is over -/
  | releaseLeg (i : Nat) (rand : Rand) (now : UInt64)

/-- `rollbackV2DeliveryToken` (ChatStore.swift:2914–2934). -/
def rollbackV2DeliveryToken (chain : Chain) (mintedIndex : Nat) : Chain :=
  if chain.nextIndex = mintedIndex + 1 then { chain with nextIndex := mintedIndex } else chain

section System

variable (env : ChainEnv) (blake3 : Bytes → ChainValue) (peerId : FixedBytes 33)
  (relayNamespace : Bytes)

/-- SEND one token over the connection: the relay's answer comes back with the
link. -/
def Link.deliver (link : Link) (token : Token) (rand : Rand) (now : UInt64) :
    Link × Option (Except TokenError Unit) :=
  let r := checkDeliveryToken env rand now link.relay peerId.1
    (encode (relayScopedToken blake3 token relayNamespace))
  ({ link with relay := r.1, lastSent := token.index }, some r.2)

/-- One event. Without a token to mint the client sends nothing and asks for a
fresh chain. -/
def Link.step (link : Link) : SendEvent → Link × Option (Except TokenError Unit)
  | .send rand now =>
    match nextToken blake3 link.chain with
    | none => (link, none)
    | some (token, chain) =>
      Link.deliver env blake3 peerId relayNamespace { link with chain } token rand now
  | .abort rolledBack =>
    match nextToken blake3 link.chain with
    | none => (link, none)
    | some (token, chain) =>
      let chain := if rolledBack then rollbackV2DeliveryToken chain token.index else chain
      ({ link with chain }, none)
  | .sealLeg =>
    match nextToken blake3 link.chain with
    | none => (link, none)
    | some (token, chain) => ({ link with chain, waiting := link.waiting ++ [token] }, none)
  | .releaseLeg i rand now =>
    match link.waiting[i]? with
    | none => (link, none)
    | some token =>
      Link.deliver env blake3 peerId relayNamespace { link with waiting := link.waiting.eraseIdx i }
        token rand now

/-- The relay's answers over a run. -/
def Link.answers (link : Link) : List SendEvent → List (Except TokenError Unit)
  | [] => []
  | e :: es =>
    let next := Link.step env blake3 peerId relayNamespace link e
    next.2.toList ++ Link.answers next.1 es

end System

/-- Whether an event hands over its frame in turn: after every younger token's
predecessor and before any younger token, skipping at most 63. -/
def InTurn (link : Link) : SendEvent → Prop
  | .send _ _ =>
    link.chain.nextIndex ≤ link.chain.length → link.chain.nextIndex ≤ link.lastSent + 64
  | .abort _ => True
  | .sealLeg => True
  | .releaseLeg i _ _ =>
    ∀ token ∈ link.waiting[i]?, link.lastSent < token.index ∧ token.index ≤ link.lastSent + 64

/-- Every event of the run is in turn. -/
def AllInTurn (env : ChainEnv) (blake3 : Bytes → ChainValue) (peerId : FixedBytes 33)
    (relayNamespace : Bytes) : Link → List SendEvent → Prop
  | _, [] => True
  | link, e :: es =>
    InTurn link e ∧
      AllInTurn env blake3 peerId relayNamespace
        (Link.step env blake3 peerId relayNamespace link e).1 es

/-! ## The invariant -/

variable {env : ChainEnv} {blake3 : Bytes → ChainValue} {peerId : FixedBytes 33}
  {relayNamespace : Bytes} {chain : Chain}

/-- As long as every frame was accepted, the relay's cursor is the index sent
last; what waits was minted from the chain. -/
structure Link.Inv (blake3 : Bytes → ChainValue) (peerId : FixedBytes 33) (relayNamespace : Bytes)
    (chain : Chain) (link : Link) : Prop where
  chainEq : link.chain = { chain with nextIndex := link.chain.nextIndex }
  minted : link.lastSent < link.chain.nextIndex
  waiting : ∀ token ∈ link.waiting, token = tokenAt blake3 chain token.index ∧
    0 < token.index ∧ token.index ≤ chain.length ∧ token.index < link.chain.nextIndex
  relay : AtCursor blake3 link.relay
    (peerId.1, relayScopedChainID blake3 chain.chainID relayNamespace) chain link.lastSent

namespace Link.Inv

variable {link : Link}

/-- Minting succeeds up to the chain's length and moves the cursor by one. -/
theorem mint (h : link.Inv blake3 peerId relayNamespace chain)
    (hroom : link.chain.nextIndex ≤ link.chain.length) :
    link.chain.nextIndex ≤ chain.length ∧
      nextToken blake3 link.chain = some (tokenAt blake3 chain link.chain.nextIndex,
        { chain with nextIndex := link.chain.nextIndex + 1 }) := by
  have hlen : link.chain.length = chain.length := by rw [h.chainEq]
  refine ⟨by rw [← hlen]; exact hroom, ?_⟩
  rw [nextToken_eq hroom, h.chainEq]
  rfl

/-- A link whose cursor has moved on keeps everything else. -/
theorem withChain (h : link.Inv blake3 peerId relayNamespace chain) {n : Nat}
    (hn : link.chain.nextIndex ≤ n) :
    Link.Inv blake3 peerId relayNamespace chain
      { link with chain := { chain with nextIndex := n } } where
  chainEq := rfl
  minted := Nat.lt_of_lt_of_le h.minted hn
  waiting := by
    intro token hmem
    obtain ⟨heq, hpos, hle, hlt⟩ := h.waiting token hmem
    exact ⟨heq, hpos, hle, Nat.lt_of_lt_of_le hlt hn⟩
  relay := h.relay

/-- Handing over token `i`: accepted exactly when `i` is in turn, and then the
invariant holds again. -/
theorem deliver (henv : env.Lawful) (hsame : SameHash env blake3) (hlen : chain.length ≤ 2 ^ 20)
    (h : link.Inv blake3 peerId relayNamespace chain) {i : Nat} (hpos : 0 < i)
    (hi : i ≤ chain.length) (hminted : i < link.chain.nextIndex) (rand : Rand) (now : UInt64) :
    let r := Link.deliver env blake3 peerId relayNamespace link (tokenAt blake3 chain i) rand now
    if link.lastSent < i ∧ i ≤ link.lastSent + 64 then
      r.2 = some (.ok ()) ∧ r.1.Inv blake3 peerId relayNamespace chain
    else ∃ e, r.2 = some (.error e) := by
  have hspec := checkDeliveryToken_spec henv hsame rand now hlen h.relay hpos hi
  simp only [Link.deliver]
  simp only at hspec
  by_cases hwin : link.lastSent < i ∧ i ≤ link.lastSent + 64
  · rw [if_pos hwin] at hspec ⊢
    refine ⟨by rw [hspec.1], ?_⟩
    exact { chainEq := h.chainEq, minted := hminted, waiting := h.waiting, relay := hspec.2 }
  · rw [if_neg hwin] at hspec ⊢
    exact ⟨.replayOrOutOfRange, by rw [hspec.1]⟩

/-- Releasing a leg does not look at the chain. -/
theorem releaseLeg (henv : env.Lawful) (hsame : SameHash env blake3) (hlen : chain.length ≤ 2 ^ 20)
    (h : link.Inv blake3 peerId relayNamespace chain) (i : Nat) (rand : Rand) (now : UInt64) :
    let r := Link.step env blake3 peerId relayNamespace link (.releaseLeg i rand now)
    (InTurn link (.releaseLeg i rand now) ↔ ∀ a ∈ r.2, a = .ok ()) ∧
      (InTurn link (.releaseLeg i rand now) → r.1.Inv blake3 peerId relayNamespace chain) := by
  cases hleg : link.waiting[i]? with
  | none =>
    simp only [Link.step, hleg, InTurn]
    exact ⟨⟨fun _ => nofun, fun _ => nofun⟩, fun _ => h⟩
  | some token =>
    obtain ⟨heq, hpos, hle, hlt⟩ := h.waiting token (List.mem_of_getElem? hleg)
    have hrest : Link.Inv blake3 peerId relayNamespace chain
        { link with waiting := link.waiting.eraseIdx i } :=
      { chainEq := h.chainEq, minted := h.minted, relay := h.relay
        waiting := fun token hmem => h.waiting token (List.mem_of_mem_eraseIdx hmem) }
    have hdeliver := hrest.deliver henv hsame hlen hpos hle hlt rand now
    rw [← heq] at hdeliver
    simp only [Link.step, hleg, InTurn, Option.mem_some]
    simp only at hdeliver
    split at hdeliver
    · next hwin =>
      refine ⟨⟨fun _ a ha => ?_, fun _ t ht => ht ▸ hwin⟩, fun _ => hdeliver.2⟩
      rw [hdeliver.1] at ha
      exact (Option.some.inj ha).symm
    · next hout =>
      obtain ⟨e, herr⟩ := hdeliver
      refine ⟨⟨fun hturn => absurd (hturn token rfl) hout, fun hall => ?_⟩,
        fun hturn => absurd (hturn token rfl) hout⟩
      rw [herr] at hall
      cases hall _ rfl

/-- One event: it is in turn exactly when it draws no refusal, and then the
invariant is kept. -/
theorem step (henv : env.Lawful) (hsame : SameHash env blake3) (hlen : chain.length ≤ 2 ^ 20)
    (h : link.Inv blake3 peerId relayNamespace chain) (e : SendEvent) :
    let r := Link.step env blake3 peerId relayNamespace link e
    (InTurn link e ↔ ∀ a ∈ r.2, a = .ok ()) ∧
      (InTurn link e → r.1.Inv blake3 peerId relayNamespace chain) := by
  have hlength : link.chain.length = chain.length := by rw [h.chainEq]
  by_cases hroom : link.chain.nextIndex ≤ link.chain.length
  · obtain ⟨hle, hmint⟩ := h.mint hroom
    cases e with
    | send rand now =>
      have hmoved := h.withChain (Nat.le_succ link.chain.nextIndex)
      have hdeliver := hmoved.deliver henv hsame hlen
        (Nat.lt_of_le_of_lt (Nat.zero_le _) h.minted) hle (Nat.lt_succ_self _) rand now
      simp only [Link.step, hmint, InTurn]
      simp only at hdeliver
      split at hdeliver
      · next hwin =>
        refine ⟨⟨fun _ a ha => ?_, fun _ _ => hwin.2⟩, fun _ => hdeliver.2⟩
        rw [hdeliver.1] at ha
        exact (Option.mem_some.mp ha).symm
      · next hout =>
        obtain ⟨e, herr⟩ := hdeliver
        have hfar : ¬ link.chain.nextIndex ≤ link.lastSent + 64 := fun hnear =>
          hout ⟨h.minted, hnear⟩
        refine ⟨⟨fun hturn => absurd (hturn hroom) hfar, fun hall => ?_⟩,
          fun hturn => absurd (hturn hroom) hfar⟩
        rw [herr] at hall
        cases hall _ rfl
    | abort rolledBack =>
      simp only [Link.step, hmint, InTurn]
      refine ⟨⟨fun _ => nofun, fun _ => trivial⟩, fun _ => ?_⟩
      cases rolledBack with
      | true =>
        -- the rollback finds the cursor right behind the token it takes back
        have hback : rollbackV2DeliveryToken { chain with nextIndex := link.chain.nextIndex + 1 }
            (tokenAt blake3 chain link.chain.nextIndex).index =
              { chain with nextIndex := link.chain.nextIndex } := by
          rw [rollbackV2DeliveryToken]
          exact if_pos rfl
        simp only [if_true, hback]
        exact h.withChain (Nat.le_refl _)
      | false =>
        simp only [Bool.false_eq_true, if_false]
        exact h.withChain (Nat.le_succ _)
    | sealLeg =>
      simp only [Link.step, hmint, InTurn]
      refine ⟨⟨fun _ => nofun, fun _ => trivial⟩, fun _ => ?_⟩
      have hmoved := h.withChain (Nat.le_succ link.chain.nextIndex)
      refine { chainEq := hmoved.chainEq, minted := hmoved.minted, waiting := ?_,
               relay := hmoved.relay }
      intro token hmem
      rcases List.mem_append.mp hmem with hold | hnew
      · exact hmoved.waiting token hold
      · rw [List.mem_singleton.mp hnew]
        exact ⟨rfl, Nat.lt_of_le_of_lt (Nat.zero_le _) h.minted, hle, Nat.lt_succ_self _⟩
    | releaseLeg i rand now => exact h.releaseLeg henv hsame hlen i rand now
  · cases e with
    | send rand now =>
      simp only [Link.step, nextToken_exhausted (Nat.lt_of_not_le hroom), InTurn]
      exact ⟨⟨fun _ => nofun, fun _ hle => absurd hle hroom⟩, fun _ => h⟩
    | abort rolledBack =>
      simp only [Link.step, nextToken_exhausted (Nat.lt_of_not_le hroom), InTurn]
      exact ⟨⟨fun _ => nofun, fun _ => trivial⟩, fun _ => h⟩
    | sealLeg =>
      simp only [Link.step, nextToken_exhausted (Nat.lt_of_not_le hroom), InTurn]
      exact ⟨⟨fun _ => nofun, fun _ => trivial⟩, fun _ => h⟩
    | releaseLeg i rand now => exact h.releaseLeg henv hsame hlen i rand now

end Link.Inv

/-- A whole run: every frame is accepted exactly when every event is in turn. -/
theorem Link.Inv.answers_iff (henv : env.Lawful) (hsame : SameHash env blake3)
    (hlen : chain.length ≤ 2 ^ 20) (events : List SendEvent) :
    ∀ {link : Link}, link.Inv blake3 peerId relayNamespace chain →
      ((∀ a ∈ Link.answers env blake3 peerId relayNamespace link events, a = .ok ()) ↔
        AllInTurn env blake3 peerId relayNamespace link events) := by
  induction events with
  | nil =>
    intro link _
    exact ⟨fun _ => trivial, fun _ a ha => (by cases ha)⟩
  | cons e es ih =>
    intro link h
    obtain ⟨hturn, hkeep⟩ := h.step henv hsame hlen e
    rw [Link.answers, AllInTurn]
    constructor
    · intro hall
      have hnow : InTurn link e := by
        refine hturn.mpr fun a ha => hall a (List.mem_append_left _ ?_)
        exact Option.mem_toList.mpr ha
      exact ⟨hnow, (ih (hkeep hnow)).mp fun a ha => hall a (List.mem_append_right _ ha)⟩
    · rintro ⟨hnow, hrest⟩ a ha
      rcases List.mem_append.mp ha with hfirst | hlater
      · exact hturn.mp hnow a (Option.mem_toList.mp hfirst)
      · exact (ih (hkeep hnow)).mpr hrest a hlater

/-- A freshly registered chain, nothing minted and nothing waiting. -/
def Link.start (chain : Chain) (relay : ChainValidatorStore) : Link where
  chain := chain
  waiting := []
  relay := relay
  lastSent := 0

section Registered

variable {seed : ChainValue} {chainID : ChainId} {length : Nat} {store : ChainValidatorStore}
  {reg : ChainRegistration} {rand : Rand} {now : UInt64}

theorem Link.start_inv (henv : env.Lawful)
    (hreg : registration blake3 peerId relayNamespace (mintChain blake3 seed chainID length) =
      some reg)
    (hok : (register env rand now store reg).result = .ok .registered) :
    (Link.start (mintChain blake3 seed chainID length)
      (register env rand now store reg).store).Inv blake3 peerId relayNamespace
        (mintChain blake3 seed chainID length) where
  chainEq := rfl
  minted := Nat.one_pos
  waiting := nofun
  relay := (atCursor_of_registered henv hreg hok).2

/-- Over any interleaving of sends, aborted sends, group legs and their releases,
the relay accepts every frame it is sent exactly when every frame is handed over
in its turn. -/
theorem every_send_accepted_iff (henv : env.Lawful) (hsame : SameHash env blake3)
    (hreg : registration blake3 peerId relayNamespace (mintChain blake3 seed chainID length) =
      some reg)
    (hok : (register env rand now store reg).result = .ok .registered) (events : List SendEvent) :
    (∀ a ∈ Link.answers env blake3 peerId relayNamespace
        (Link.start (mintChain blake3 seed chainID length)
          (register env rand now store reg).store) events, a = .ok ()) ↔
      AllInTurn env blake3 peerId relayNamespace
        (Link.start (mintChain blake3 seed chainID length)
          (register env rand now store reg).store) events :=
  (Link.start_inv henv hreg hok).answers_iff henv hsame
    (atCursor_of_registered henv hreg hok).1 events

end Registered

/-! ## A text overtakes a group leg -/

/-- The link over the sample chain. -/
def sampleLink : Link := Link.start (sampleChain 3) (sampleRelay sampleNamespace 3)

/-- A leg that is released before the next text is sent: the relay accepts both. -/
theorem leg_before_text_accepted :
    Link.answers plainEnv plainBlake3 samplePeer sampleNamespace sampleLink
      [.sealLeg, .releaseLeg 0 sampleRand 200, .send sampleRand 300] =
        List.replicate 2 (.ok ()) := by
  refine List.eq_replicate_iff.mpr ⟨rfl, ?_⟩
  refine (every_send_accepted_iff plainEnv_lawful plainEnv_sameHash
    (registration_sample sampleNamespace 3 (by decide))
    (register_sample sampleNamespace (by decide) (by decide)) _).mpr ?_
  refine ⟨trivial, ?_, ?_, trivial⟩
  · rintro token ⟨⟩
    decide
  · intro _
    decide

/-- A text sent while a leg waits: the relay refuses the leg. -/
theorem text_overtakes_leg :
    ¬ ∀ a ∈ Link.answers plainEnv plainBlake3 samplePeer sampleNamespace sampleLink
        [.sealLeg, .send sampleRand 200, .releaseLeg 0 sampleRand 300], a = .ok () := by
  have hinv : sampleLink.Inv plainBlake3 samplePeer sampleNamespace (sampleChain 3) :=
    Link.start_inv plainEnv_lawful (registration_sample sampleNamespace 3 (by decide))
      (register_sample sampleNamespace (by decide) (by decide))
  rw [hinv.answers_iff plainEnv_lawful plainEnv_sameHash (by decide)]
  rintro ⟨_, _, hlate, _⟩
  have hbehind := hlate _ rfl
  exact absurd hbehind.1 (by decide)

end Pizzini.Delivery
