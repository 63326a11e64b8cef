import Pizzini.Delivery.SampleChain
import Pizzini.Lib.Gaps

/-!
# One chain, several relays

A message goes to every relay under one index of one chain (`sendSealedToRelays`,
ChatStore.swift:1509–1523), with the chain's name changed for each relay. The
sender has a single cursor; each relay has its own. A relay that is down, or
whose connection is not ready, misses the index for good.

`validate` walks at most `MAX_VALIDATE_STEPS = 64` hashes forward, so a relay
that missed up to 63 indices in a row catches up with the next token, and one
that missed 64 refuses that token, and with it every later one: its cursor no
longer moves (`answer_iff_lag`, with the arithmetic in `Lib/Gaps.lean`).
-/

namespace Pizzini.Delivery

open Wire Relay Gaps

variable {ι : Type}

/-- The sender's chain and the relays' stores. -/
structure Fleet (ι : Type) where
  chain : Chain
  relays : ι → ChainValidatorStore

/-- One message: the relays it reaches, and what each of them draws and reads off
its clock. -/
structure Presentation (ι : Type) where
  reached : ι → Bool
  rand : ι → Rand
  now : ι → UInt64

section System

variable (env : ChainEnv) (blake3 : Bytes → ChainValue) (peerId : FixedBytes 33)
  (relayNamespace : ι → Bytes)

/-- One message: `mintV2DeliveryToken`, then the token under each reached relay's
name for the chain. An exhausted chain sends nothing. -/
def present (fleet : Fleet ι) (p : Presentation ι) : Fleet ι :=
  match nextToken blake3 fleet.chain with
  | none => fleet
  | some (token, chain) =>
    { chain := chain
      relays := fun r =>
        if p.reached r then
          (checkDeliveryToken env (p.rand r) (p.now r) (fleet.relays r) peerId.1
            (encode (relayScopedToken blake3 token (relayNamespace r)))).1
        else fleet.relays r }

/-- A sequence of messages. -/
def presentAll (fleet : Fleet ι) (run : List (Presentation ι)) : Fleet ι :=
  run.foldl (present env blake3 peerId relayNamespace) fleet

/-- What relay `r` answers to the next token the sender mints. -/
def answer (fleet : Fleet ι) (r : ι) (rand : Rand) (now : UInt64) :
    Option (Except TokenError Unit) :=
  (nextToken blake3 fleet.chain).map fun minted =>
    (checkDeliveryToken env rand now (fleet.relays r) peerId.1
      (encode (relayScopedToken blake3 minted.1 (relayNamespace r)))).2

end System

variable {env : ChainEnv} {blake3 : Bytes → ChainValue} {peerId : FixedBytes 33}
  {relayNamespace : ι → Bytes} {chain : Chain}

/-- After `n` messages the sender stands at `n + 1`, and relay `r` is `lag r`
tokens behind it. -/
structure Behind (blake3 : Bytes → ChainValue) (peerId : FixedBytes 33) (relayNamespace : ι → Bytes)
    (chain : Chain) (fleet : Fleet ι) (n : Nat) (behind : ι → Nat) : Prop where
  sender : fleet.chain = { chain with nextIndex := n + 1 }
  relay : ∀ r, behind r ≤ n ∧ AtCursor blake3 (fleet.relays r)
    (peerId.1, relayScopedChainID blake3 chain.chainID (relayNamespace r)) chain (n - behind r)

/-- The sender's next token is the one at its cursor. -/
theorem Behind.nextToken_eq {fleet : Fleet ι} {n : Nat} {behind : ι → Nat}
    (h : Behind blake3 peerId relayNamespace chain fleet n behind) (hn : n < chain.length) :
    nextToken blake3 fleet.chain =
      some (tokenAt blake3 chain (n + 1), { chain with nextIndex := n + 2 }) := by
  have hcursor : fleet.chain.nextIndex ≤ fleet.chain.length := by
    rw [h.sender]
    exact hn
  rw [Delivery.nextToken_eq hcursor, h.sender]
  rfl

/-- One message within the chain's length moves every relay's lag by `lagStep`. -/
theorem Behind.present (henv : env.Lawful) (hsame : SameHash env blake3)
    (hlen : chain.length ≤ 2 ^ 20) {fleet : Fleet ι} {n : Nat} {behind : ι → Nat}
    (h : Behind blake3 peerId relayNamespace chain fleet n behind) (hn : n < chain.length)
    (p : Presentation ι) :
    Behind blake3 peerId relayNamespace chain
      (Delivery.present env blake3 peerId relayNamespace fleet p) (n + 1)
      fun r => lagStep 64 (behind r) (p.reached r) := by
  simp only [Delivery.present, h.nextToken_eq hn]
  refine ⟨rfl, fun r => ?_⟩
  obtain ⟨hle, hat⟩ := h.relay r
  simp only [lagStep]
  cases hreach : p.reached r with
  | false =>
    simp only [Bool.false_eq_true, false_and, if_false]
    refine ⟨by omega, ?_⟩
    rw [show n + 1 - (behind r + 1) = n - behind r by omega]
    exact hat
  | true =>
    have hspec := checkDeliveryToken_spec henv hsame (p.rand r) (p.now r) hlen hat
      (Nat.succ_pos n) hn
    simp only [true_and, if_true]
    by_cases hb : behind r < 64
    · rw [if_pos hb]
      simp only at hspec
      rw [if_pos (by omega)] at hspec
      exact ⟨Nat.zero_le _, hspec.2⟩
    · rw [if_neg hb]
      simp only at hspec
      rw [if_neg (by omega)] at hspec
      refine ⟨by omega, ?_⟩
      rw [show n + 1 - (behind r + 1) = n - behind r by omega, hspec.2]
      exact hat

/-- A run within the chain's length. -/
theorem Behind.presentAll (henv : env.Lawful) (hsame : SameHash env blake3)
    (hlen : chain.length ≤ 2 ^ 20) {fleet : Fleet ι}
    (h : Behind blake3 peerId relayNamespace chain fleet 0 fun _ => 0) :
    ∀ run : List (Presentation ι), run.length ≤ chain.length →
      Behind blake3 peerId relayNamespace chain
        (Delivery.presentAll env blake3 peerId relayNamespace fleet run) run.length
        fun r => lag 64 (run.map fun p => p.reached r) := by
  intro run
  induction run using List.reverseRecOn with
  | nil => exact fun _ => h
  | append_singleton run p ih =>
    intro hrun
    rw [List.length_append, List.length_singleton] at hrun ⊢
    have hstep := (ih (by omega)).present henv hsame hlen (by omega) p
    rw [Delivery.presentAll, List.foldl_append, List.foldl_cons, List.foldl_nil]
    simp only [List.map_append, List.map_cons, List.map_nil, lag_append_singleton]
    exact hstep

/-- The next token is accepted exactly by the relays fewer than 64 tokens behind. -/
theorem Behind.answer_iff (henv : env.Lawful) (hsame : SameHash env blake3)
    (hlen : chain.length ≤ 2 ^ 20) {fleet : Fleet ι} {n : Nat} {behind : ι → Nat}
    (h : Behind blake3 peerId relayNamespace chain fleet n behind) (hn : n < chain.length) (r : ι)
    (rand : Rand) (now : UInt64) :
    answer env blake3 peerId relayNamespace fleet r rand now = some (.ok ()) ↔ behind r < 64 := by
  obtain ⟨hle, hat⟩ := h.relay r
  have hspec := checkDeliveryToken_spec henv hsame rand now hlen hat (Nat.succ_pos n) hn
  simp only at hspec
  rw [answer, h.nextToken_eq hn, Option.map_some, Option.some.injEq]
  by_cases hb : behind r < 64
  · rw [if_pos (by omega)] at hspec
    exact ⟨fun _ => hb, fun _ => hspec.1⟩
  · rw [if_neg (by omega)] at hspec
    rw [hspec.1]
    constructor
    · intro h
      cases h
    · intro h
      exact absurd h hb

section Registered

variable {seed : ChainValue} {chainID : ChainId} {length : Nat}

/-- Every relay of the fleet has registered the chain. -/
structure FleetRegistered (env : ChainEnv) (blake3 : Bytes → ChainValue) (peerId : FixedBytes 33)
    (relayNamespace : ι → Bytes) (chain : Chain) (relays : ι → ChainValidatorStore) : Prop where
  registered : ∀ r, ∃ store reg rand now,
    registration blake3 peerId (relayNamespace r) chain = some reg ∧
      (register env rand now store reg).result = .ok .registered ∧
      relays r = (register env rand now store reg).store

/-- A freshly registered fleet is not behind. -/
theorem FleetRegistered.behind (henv : env.Lawful) {relays : ι → ChainValidatorStore}
    (h : FleetRegistered env blake3 peerId relayNamespace (mintChain blake3 seed chainID length)
      relays) :
    Behind blake3 peerId relayNamespace (mintChain blake3 seed chainID length)
      ⟨mintChain blake3 seed chainID length, relays⟩ 0 fun _ => 0 := by
  refine ⟨rfl, fun r => ⟨Nat.le_refl 0, ?_⟩⟩
  obtain ⟨store, reg, rand, now, hreg, hok, hrelay⟩ := h.registered r
  show AtCursor blake3 (relays r) _ _ 0
  rw [hrelay]
  exact (atCursor_of_registered henv hreg hok).2

/-- A registered chain has at most `MAX_CHAIN_LENGTH` tokens. -/
theorem FleetRegistered.length_le (henv : env.Lawful) {relays : ι → ChainValidatorStore}
    (h : FleetRegistered env blake3 peerId relayNamespace (mintChain blake3 seed chainID length)
      relays) (r : ι) :
    length ≤ 2 ^ 20 := by
  obtain ⟨store, reg, rand, now, hreg, hok, _⟩ := h.registered r
  exact (atCursor_of_registered henv hreg hok).1

/-- After any run within the chain's length, a relay accepts the next token
exactly when it is fewer than 64 tokens behind. -/
theorem answer_iff_lag (henv : env.Lawful) (hsame : SameHash env blake3)
    {relays : ι → ChainValidatorStore}
    (h : FleetRegistered env blake3 peerId relayNamespace (mintChain blake3 seed chainID length)
      relays) (run : List (Presentation ι)) (hrun : run.length < length) (r : ι) (rand : Rand)
    (now : UInt64) :
    answer env blake3 peerId relayNamespace
        (presentAll env blake3 peerId relayNamespace
          ⟨mintChain blake3 seed chainID length, relays⟩ run) r rand now = some (.ok ()) ↔
      lag 64 (run.map fun p => p.reached r) < 64 := by
  have hlen := h.length_le henv r
  have hbehind := (h.behind henv).presentAll henv hsame hlen run (Nat.le_of_lt hrun)
  exact hbehind.answer_iff henv hsame hlen hrun r rand now

/-- A relay accepts the next token exactly when no 64 messages in a row failed to
reach it. -/
theorem next_token_accepted_iff (henv : env.Lawful) (hsame : SameHash env blake3)
    {relays : ι → ChainValidatorStore}
    (h : FleetRegistered env blake3 peerId relayNamespace (mintChain blake3 seed chainID length)
      relays) (run : List (Presentation ι)) (hrun : run.length < length) (r : ι) (rand : Rand)
    (now : UInt64) :
    answer env blake3 peerId relayNamespace
        (presentAll env blake3 peerId relayNamespace
          ⟨mintChain blake3 seed chainID length, relays⟩ run) r rand now = some (.ok ()) ↔
      ¬ List.replicate 64 false <:+: run.map fun p => p.reached r := by
  rw [answer_iff_lag henv hsame h run hrun r rand now, lag_lt_iff]

/-! ## Two relays, one of them down -/

/-- Relay `false` is reached by every message, relay `true` by none. -/
def outage : Presentation Bool where
  reached r := !r
  rand _ := sampleRand
  now _ := 200

/-- The two relays' names for themselves. -/
def sampleNamespaces (r : Bool) : Bytes := if r then [1] else [2]

/-- A chain of 100 tokens, registered at both. -/
def sampleFleet : Fleet Bool where
  chain := sampleChain 100
  relays r := sampleRelay (sampleNamespaces r) 100

theorem sampleFleet_registered :
    FleetRegistered plainEnv plainBlake3 samplePeer sampleNamespaces (sampleChain 100)
      sampleFleet.relays where
  registered r := ⟨emptyStore, sampleRegistration (sampleNamespaces r) 100, sampleRand, 100,
    registration_sample _ 100 (by decide), register_sample _ (by decide) (by decide), rfl⟩

/-- An outage of 63 messages: the relay accepts the 64th token. -/
theorem next_token_accepted_after_63 :
    (List.replicate 63 outage).length < 100 ∧
      answer plainEnv plainBlake3 samplePeer sampleNamespaces
        (presentAll plainEnv plainBlake3 samplePeer sampleNamespaces sampleFleet
          (List.replicate 63 outage)) true sampleRand 200 = some (.ok ()) := by
  refine ⟨by decide, (next_token_accepted_iff plainEnv_lawful plainEnv_sameHash
    sampleFleet_registered _ (by decide) true sampleRand 200).mpr ?_⟩
  rw [List.map_replicate]
  decide

/-- An outage of 64 messages: the relay refuses the 65th token, though the chain
has 100. -/
theorem relay_down_for_64_refuses :
    (List.replicate 64 outage).length < 100 ∧
      answer plainEnv plainBlake3 samplePeer sampleNamespaces
        (presentAll plainEnv plainBlake3 samplePeer sampleNamespaces sampleFleet
          (List.replicate 64 outage)) true sampleRand 200 ≠ some (.ok ()) := by
  refine ⟨by decide, fun haccepted => ?_⟩
  have hlag := (answer_iff_lag plainEnv_lawful plainEnv_sameHash sampleFleet_registered
    (List.replicate 64 outage) (by decide) true sampleRand 200).mp haccepted
  rw [List.map_replicate] at hlag
  exact absurd hlag (by decide)

end Registered

end Pizzini.Delivery
