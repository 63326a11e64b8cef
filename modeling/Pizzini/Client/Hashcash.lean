import Mathlib.Data.Nat.Find
import Mathlib.Order.Bounds.Basic
import Pizzini.Client.FrameAgreement
import Pizzini.Relay.BundleReqCap

/-!
# First contact: the proof of work of a BUNDLE_REQUEST

A client that scanned a contact card asks for the contact's bundle. It has no
delivery token yet, so the request carries a hashcash nonce instead: the hash of
challenge and nonce begins with `HASHCASH_BITS` zero bits, and the challenge is a
hash of the recipient's id and the current hour. Prover and checker are written
three times, in `crypto-core`, in `ChatStore.swift` and in `main.rs`, and are
kept in step by hand.

- the prover's loop returns the least nonce that passes, and runs for ever if
  there is none (`hashcashCompute_eq_some_iff`, `hashcashCompute_eq_none_iff`);
- the bytes under a challenge determine the recipient and the hour
  (`challengeInput_inj`);
- a proof is good for the hour it was computed in and the next one, at every
  relay, and the request then reaches the recipient with the sender's id unless
  the recipient's hour is used up (`first_contact`).
-/

namespace Pizzini.Client

open Wire Relay

-- BLAKE3, the same function on both sides
variable (blake3 : Bytes → FixedBytes 32)

/-! ## `crypto-core` (hashcash.rs) -/

/-- `leading_zero_bits`. -/
def leadingZeroBits : Bytes → Nat
  | [] => 0
  | b :: bs => if b = 0 then 8 + leadingZeroBits bs else 7 - b.toNat.log2

/-- `hashcash_verify`. -/
def hashcashVerify (challenge : Bytes) (nonce : UInt64) (bits : Nat) : Bool :=
  bits ≤ leadingZeroBits (blake3 (challenge ++ beBytes 8 nonce.toNat)).1

/-- The loop of `hashcash_compute`, for at most `fuel` rounds. -/
def hashcashLoop (challenge : Bytes) (bits : Nat) : Nat → UInt64 → Option UInt64
  | 0, _ => none
  | fuel + 1, nonce =>
    if hashcashVerify blake3 challenge nonce bits then some nonce
    else hashcashLoop challenge bits fuel (nonce + 1)

/-- `hashcash_compute`. -/
def hashcashCompute (challenge : Bytes) (bits fuel : Nat) : Option UInt64 :=
  hashcashLoop blake3 challenge bits fuel 0

/-! ## The client (ChatStore.swift:2085–2262) -/

/-- `Hashcash.defaultBits`. -/
def defaultBits : Nat := 22

/-- `hashcashChallengeTag`. -/
def hashcashChallengeTag : Bytes := utf8 "pizzini.hashcash.bundle.v1"

/-- `currentHourBucket`, from the seconds since the epoch; `current_hour_bucket`
of the relay (main.rs:2338) is the same. -/
def currentHourBucket (secs : UInt64) : UInt64 := secs / 3600

/-- `hashcashChallenge(for:hour:)`; `UInt16(peer.count)` traps on a longer id. -/
def hashcashChallenge (peer : Bytes) (hour : UInt64) : Option Bytes :=
  if peer.length < 65536 then
    some (blake3 (hashcashChallengeTag ++ beBytes 2 peer.length ++ peer ++
      beBytes 8 hour.toNat)).1
  else none

/-- `requestBundleWithHashcash`: the frame, from the clock when the proof is started. -/
def requestBundleWithHashcash (keys : ClientKeys) (peer : Bytes) (secs : UInt64)
    (fuel : Nat) : Option Bytes := do
  let challenge ← hashcashChallenge blake3 peer (currentHourBucket secs)
  let nonce ← hashcashCompute blake3 challenge defaultBits fuel
  keys.requestBundle peer nonce

end Pizzini.Client

namespace Pizzini.Relay

open Wire Client

variable (blake3 : Bytes → FixedBytes 32)

/-! ## The relay (main.rs:557–562, 2318–2375) -/

def HASHCASH_BITS : Nat := 22
def HASHCASH_CHALLENGE_TAG : Bytes := utf8 "pizzini.hashcash.bundle.v1"

/-- What `build_hashcash_challenge` hashes. -/
def challengeInput (recipientPeerId : Bytes) (hour : UInt64) : Bytes :=
  HASHCASH_CHALLENGE_TAG ++ beBytes 2 recipientPeerId.length ++ recipientPeerId ++
    beBytes 8 hour.toNat

/-- `build_hashcash_challenge`. Its `expect` never fails: the parser caps an id
at `MAX_PEER_ID_BYTES`. -/
def buildHashcashChallenge (recipientPeerId : Bytes) (hour : UInt64) : Bytes :=
  (blake3 (challengeInput recipientPeerId hour)).1

/-- `verify_hashcash`; `nowHour` is `current_hour_bucket()`. -/
def verifyHashcash (nowHour : UInt64) (recipientPeerId : Bytes) (nonce : UInt64) : Bool :=
  let tryBucket := fun hour =>
    decide (HASHCASH_BITS ≤ leadingZeroBits
      (blake3 (buildHashcashChallenge blake3 recipientPeerId hour ++ beBytes 8 nonce.toNat)).1)
  tryBucket nowHour || (decide (0 < nowHour) && tryBucket (nowHour - 1))

end Pizzini.Relay

namespace Pizzini.Client

open Wire Relay

variable {blake3 : Bytes → FixedBytes 32}

/-! ## The prover -/

section Prover

variable {challenge : Bytes} {bits : Nat}

/-- The loop stops at the first nonce that passes, counted from where it starts. -/
theorem hashcashLoop_eq_some_iff {fuel : Nat} {start nonce : UInt64} :
    hashcashLoop blake3 challenge bits fuel start = some nonce ↔
      ∃ k < fuel, nonce = start + UInt64.ofNat k ∧
        hashcashVerify blake3 challenge nonce bits = true ∧
        ∀ j < k, hashcashVerify blake3 challenge (start + UInt64.ofNat j) bits = false := by
  induction fuel generalizing start with
  | zero =>
    refine ⟨by rintro ⟨⟩, ?_⟩
    rintro ⟨k, hk, -⟩
    exact absurd hk (Nat.not_lt_zero k)
  | succ fuel ih =>
    have hstart : start + UInt64.ofNat 0 = start := UInt64.add_zero start
    have hshift : ∀ j, start + 1 + UInt64.ofNat j = start + UInt64.ofNat (j + 1) := by
      intro j
      rw [UInt64.ofNat_add, UInt64.add_assoc, UInt64.add_comm 1]
      rfl
    rw [hashcashLoop]
    by_cases hpass : hashcashVerify blake3 challenge start bits = true
    · rw [if_pos hpass]
      constructor
      · intro h
        cases h
        exact ⟨0, Nat.succ_pos _, hstart.symm, hpass, fun j hj => absurd hj (Nat.not_lt_zero j)⟩
      · rintro ⟨k, -, rfl, -, hbefore⟩
        cases k with
        | zero => rw [hstart]
        | succ k =>
          have hzero := hbefore 0 (Nat.succ_pos k)
          rw [hstart, hpass] at hzero
          cases hzero
    · rw [if_neg hpass, ih]
      constructor
      · rintro ⟨k, hk, hnonce, hpassed, hbefore⟩
        refine ⟨k + 1, Nat.succ_lt_succ hk, hnonce.trans (hshift k), hpassed, fun j hj => ?_⟩
        cases j with
        | zero =>
          rw [hstart]
          exact Bool.eq_false_iff.mpr hpass
        | succ j =>
          rw [← hshift]
          exact hbefore j (Nat.lt_of_succ_lt_succ hj)
      · rintro ⟨k, hk, hnonce, hpassed, hbefore⟩
        cases k with
        | zero =>
          rw [hstart] at hnonce
          rw [hnonce] at hpassed
          exact absurd hpassed hpass
        | succ k =>
          refine ⟨k, Nat.lt_of_succ_lt_succ hk, hnonce.trans (hshift k).symm, hpassed,
            fun j hj => ?_⟩
          rw [hshift]
          exact hbefore (j + 1) (Nat.succ_lt_succ hj)

/-- Some number of rounds finds `nonce` exactly if it is the least that passes. -/
theorem hashcashCompute_eq_some_iff {nonce : UInt64} :
    (∃ fuel, hashcashCompute blake3 challenge bits fuel = some nonce) ↔
      IsLeast { n | hashcashVerify blake3 challenge n bits = true } nonce := by
  simp only [hashcashCompute, hashcashLoop_eq_some_iff, UInt64.zero_add]
  constructor
  · rintro ⟨fuel, k, -, rfl, hpassed, hbefore⟩
    refine ⟨hpassed, fun n hn => Decidable.byContradiction fun hlt => ?_⟩
    have hle : (UInt64.ofNat k).toNat ≤ k := by
      rw [UInt64.toNat_ofNat']
      exact Nat.mod_le _ _
    rw [UInt64.le_iff_toNat_le] at hlt
    have hn' := hbefore n.toNat (by omega)
    rw [UInt64.ofNat_toNat, show hashcashVerify blake3 challenge n bits = true from hn] at hn'
    cases hn'
  · rintro ⟨hpassed, hleast⟩
    refine ⟨nonce.toNat + 1, nonce.toNat, Nat.lt_succ_self _, (UInt64.ofNat_toNat).symm, hpassed,
      fun j hj => Bool.eq_false_iff.mpr fun hj' => ?_⟩
    have hlt : j < 2 ^ 64 := Nat.lt_trans hj nonce.toNat_lt
    have hle := UInt64.le_iff_toNat_le.mp (hleast hj')
    rw [UInt64.toNat_ofNat', Nat.mod_eq_of_lt hlt] at hle
    omega

/-- If no nonce passes, the loop never returns. -/
theorem hashcashCompute_eq_none_iff :
    (∀ fuel, hashcashCompute blake3 challenge bits fuel = none) ↔
      ∀ nonce, hashcashVerify blake3 challenge nonce bits = false := by
  constructor
  · intro hnone
    by_contra hsome
    obtain ⟨n, hn⟩ := not_forall.mp hsome
    have hpass : ∃ k, hashcashVerify blake3 challenge (UInt64.ofNat k) bits = true :=
      ⟨n.toNat, by rw [UInt64.ofNat_toNat]; exact Bool.not_eq_false _ ▸ hn⟩
    have hfound : hashcashCompute blake3 challenge bits (Nat.find hpass + 1) =
        some (UInt64.ofNat (Nat.find hpass)) := by
      rw [hashcashCompute, hashcashLoop_eq_some_iff]
      simp only [UInt64.zero_add]
      exact ⟨_, Nat.lt_succ_self _, rfl, Nat.find_spec hpass,
        fun j hj => Bool.eq_false_iff.mpr (Nat.find_min hpass hj)⟩
    rw [hnone] at hfound
    cases hfound
  · intro hfail fuel
    cases hrun : hashcashCompute blake3 challenge bits fuel with
    | none => rfl
    | some nonce =>
      have hleast := hashcashCompute_eq_some_iff.mp ⟨fuel, hrun⟩
      have hpassed : hashcashVerify blake3 challenge nonce bits = true := hleast.1
      rw [hfail] at hpassed
      cases hpassed

end Prover

/-! ## The challenge -/

/-- Both sides hash the same bytes. -/
theorem hashcashChallenge_eq {peer : Bytes} (hpeer : peer.length < 65536) (hour : UInt64) :
    hashcashChallenge blake3 peer hour = some (buildHashcashChallenge blake3 peer hour) :=
  if_pos hpeer

/-- The bytes under a challenge determine the recipient and the hour, for ids of
any length: what stands before and behind the id has a fixed one. -/
theorem challengeInput_inj {peer peer' : Bytes} {hour hour' : UInt64}
    (h : challengeInput peer hour = challengeInput peer' hour') : peer = peer' ∧ hour = hour' := by
  rw [challengeInput, challengeInput] at h
  obtain ⟨h, hhour⟩ := List.append_inj' h (by rw [length_beBytes, length_beBytes])
  rw [List.append_assoc, List.append_assoc] at h
  obtain ⟨hlen, hsame⟩ := List.append_inj (List.append_cancel_left h)
    (by rw [length_beBytes, length_beBytes])
  refine ⟨hsame, ?_⟩
  have hnat := congrArg beNat hhour
  rw [beNat_beBytes hour.toNat_lt, beNat_beBytes hour'.toNat_lt] at hnat
  exact UInt64.toNat_inj.mp hnat

theorem toNat_sub_one {n : UInt64} (h : 0 < n.toNat) : (n - 1).toNat = n.toNat - 1 := by
  have hle : 1 ≤ n := UInt64.le_iff_toNat_le.mpr (by
    rw [UInt64.toNat_one]
    omega)
  rw [UInt64.toNat_sub_of_le _ _ hle, UInt64.toNat_one]

/-- The relay takes the proofs of the current hour and of the hour before. -/
theorem verifyHashcash_iff {nowHour : UInt64} {peer : Bytes} {nonce : UInt64} :
    verifyHashcash blake3 nowHour peer nonce = true ↔
      ∃ hour : UInt64, (hour.toNat = nowHour.toNat ∨ hour.toNat + 1 = nowHour.toNat) ∧
        hashcashVerify blake3 (buildHashcashChallenge blake3 peer hour) nonce defaultBits = true := by
  simp only [verifyHashcash, Bool.or_eq_true, Bool.and_eq_true, decide_eq_true_eq, hashcashVerify]
  constructor
  · rintro (hnow | ⟨hpos, hprev⟩)
    · exact ⟨nowHour, .inl rfl, hnow⟩
    · refine ⟨nowHour - 1, .inr ?_, hprev⟩
      have hpos : 0 < nowHour.toNat := UInt64.lt_iff_toNat_lt.mp hpos
      rw [toNat_sub_one hpos]
      omega
  · rintro ⟨hour, hhour | hhour, hpass⟩
    · rw [UInt64.toNat_inj.mp hhour] at hpass
      exact .inl hpass
    · have hpos : 0 < nowHour.toNat := by omega
      have hprev : nowHour - 1 = hour := by
        apply UInt64.toNat_inj.mp
        rw [toNat_sub_one hpos]
        omega
      refine .inr ⟨UInt64.lt_iff_toNat_lt.mpr hpos, ?_⟩
      rw [hprev]
      exact hpass

theorem toNat_currentHourBucket (secs : UInt64) :
    (currentHourBucket secs).toNat = secs.toNat / 3600 := by
  rw [currentHourBucket, UInt64.toNat_div]
  rfl

/-! ## The request -/

/-- The arm of BUNDLE_REQUEST for a frame with a good proof. -/
theorem bundleRequest_proven {check : PeerId → UInt64 → Bool} {selfId body : Bytes} {hour : UInt64}
    {store : BundleReqRateStore} {parsed : ParsedBundleRequest}
    (hparse : parseBundleRequest body = .ok parsed) (hfrom : parsed.fromId = selfId)
    (hproof : check parsed.toId parsed.hashcashNonce = true) :
    (bundleRequest check selfId body hour store).1 =
      if store.count (parsed.toId, hour) < BUNDLE_REQ_PER_RECIPIENT_PER_HOUR then
        .passed parsed.toId
      else .overCap := by
  have hcap : BUNDLE_REQ_PER_RECIPIENT_PER_HOUR < saturatingSucc (store.count (parsed.toId, hour)) ↔
      ¬ store.count (parsed.toId, hour) < BUNDLE_REQ_PER_RECIPIENT_PER_HOUR := by
    have hsucc := toNat_saturatingSucc (store.count (parsed.toId, hour))
    simp only [UInt32.lt_iff_toNat_lt, UInt32.le_iff_toNat_le] at hsucc ⊢
    constructor
    · intro hlt hless
      have hmax : store.count (parsed.toId, hour) ≠ 4294967295 := by
        intro heq
        rw [heq] at hless
        exact absurd hless (by decide)
      rw [saturatingSucc, if_neg hmax, UInt32.toNat_add, UInt32.toNat_one] at hlt
      have := Nat.mod_le ((store.count (parsed.toId, hour)).toNat + 1) (2 ^ 32)
      omega
    · intro hless
      by_contra hle
      have := hsucc.2 (Nat.le_of_not_lt hle)
      omega
  unfold bundleRequest
  rw [hparse]
  simp only [hfrom, ne_eq, not_true_eq_false, if_false, hproof, Bool.not_true, Bool.false_eq_true]
  rw [show (store.increment parsed.toId hour).2 =
    saturatingSucc (store.count (parsed.toId, hour)) from BundleReqRateStore.increment_count ..]
  by_cases hless : store.count (parsed.toId, hour) < BUNDLE_REQ_PER_RECIPIENT_PER_HOUR
  · rw [if_pos hless, if_neg (fun h => hcap.mp h hless)]
  · rw [if_neg hless, if_pos (hcap.mpr hless)]

/-- A client's request for the bundle of `peer`: from the hour in which the proof
was started to the end of the next one it passes every relay on a connection of
that client, unless the hour of `peer` is used up there, and the frame tells the
client of `peer` whose request it is. On any other connection it is refused. -/
theorem first_contact {keys : ClientKeys} {peer frame : Bytes} {secs relaySecs : UInt64}
    {fuel : Nat} (hid : keys.myIdentity.length ≤ MAX_PEER_ID_BYTES)
    (hpeer : peer.length ≤ MAX_PEER_ID_BYTES)
    (hframe : requestBundleWithHashcash blake3 keys peer secs fuel = some frame)
    (hhour : relaySecs.toNat / 3600 = secs.toNat / 3600 ∨
      relaySecs.toNat / 3600 = secs.toNat / 3600 + 1) :
    ∃ body, frame = FRAME_TYPE_BUNDLE_REQUEST :: body ∧
      (∀ store, (bundleRequest (verifyHashcash blake3 (currentHourBucket relaySecs))
          keys.myIdentity body (currentHourBucket relaySecs) store).1 =
        if store.count (peer, currentHourBucket relaySecs) < BUNDLE_REQ_PER_RECIPIENT_PER_HOUR then
          .passed peer
        else .overCap) ∧
      (∀ check selfId hour store, selfId ≠ keys.myIdentity →
        (bundleRequest check selfId body hour store).1 = .spoofedFromId) ∧
      handleFrame frame = some (.didReceiveBundleRequest keys.myIdentity) := by
  have hpeer' : peer.length < 65536 := lt_of_le_maxPeerId hpeer
  obtain ⟨challenge, hchallenge, hprove⟩ := Option.bind_eq_some_iff.mp hframe
  obtain ⟨nonce, hnonce, hrequest⟩ := Option.bind_eq_some_iff.mp hprove
  rw [hashcashChallenge_eq hpeer'] at hchallenge
  cases hchallenge
  have hpassed : hashcashVerify blake3
      (buildHashcashChallenge blake3 peer (currentHourBucket secs)) nonce defaultBits = true :=
    (hashcashCompute_eq_some_iff.mp ⟨fuel, hnonce⟩).1
  have hproof : verifyHashcash blake3 (currentHourBucket relaySecs) peer nonce = true := by
    refine verifyHashcash_iff.mpr ⟨currentHourBucket secs, ?_, hpassed⟩
    rw [toNat_currentHourBucket, toNat_currentHourBucket]
    omega
  have hparse := parseBundleRequest_body hpeer hid nonce
  have hmade : keys.requestBundle peer nonce = some _ :=
    routed_eq frameTypeBundleRequest hpeer' (lt_of_le_maxPeerId hid) _
  rw [hmade] at hrequest
  cases hrequest
  refine ⟨_, rfl, fun store => bundleRequest_proven hparse rfl hproof, ?_, ?_⟩
  · intro check selfId hour store hself
    unfold bundleRequest
    rw [hparse]
    exact congrArg Prod.fst (if_pos (Ne.symm hself))
  · exact u16Blob_u16Blob hpeer' (lt_of_le_maxPeerId hid) _
      fun sender _ => some (.didReceiveBundleRequest sender)

/-- A hash of zeros, which every nonce passes. -/
def zeroBlake3 (_ : Bytes) : FixedBytes 32 := FixedBytes.replicate 32 0

/-- A request made at the end of an hour passes the relay early in the next one. -/
theorem first_contact_next_hour :
    ∃ body, (bundleRequest (verifyHashcash zeroBlake3 (currentHourBucket 3600)) [7] body
        (currentHourBucket 3600) ⟨FixedBytes.replicate 32 1, ∅, false⟩).1 = .passed [5] := by
  obtain ⟨frame, hframe⟩ : ∃ frame,
      requestBundleWithHashcash zeroBlake3 ⟨[7], [9]⟩ [5] 3599 1 = some frame :=
    Option.isSome_iff_exists.mp (by decide +kernel)
  have hhour : UInt64.toNat 3600 / 3600 = UInt64.toNat 3599 / 3600 + 1 := by decide
  obtain ⟨body, -, hpass, -⟩ := first_contact (by decide) (by decide) hframe (.inr hhour)
  exact ⟨body, hpass _⟩

end Pizzini.Client
