import Mathlib.Algebra.Order.Floor.Semiring
import Mathlib.Algebra.Order.Field.Rat
import Mathlib.Data.Rat.Floor
import Pizzini.Lib.Runs
import Pizzini.Relay.FrameParsers
import Pizzini.Relay.PendingStore
import Pizzini.Relay.SoftState

/-!
# HELLO possession proofs and the replay table

A HELLO is signed with a timestamp and a nonce. The relay takes it if the
timestamp is within 60 seconds of its own clock and the pair of peer and nonce
is not in the replay table, and then records the pair. A collector drops the
pairs that are 120 seconds old.

The signature covers the peer, the verify key, the timestamp and the nonce, and
is good for one choice of them (`signing_payload_binds`).

The clock is read in whole seconds, so a HELLO may be taken from 60 seconds
before its timestamp to just under 61 seconds after it. That is a second more
than the 120 seconds for which the table is sure to remember it: a HELLO that
was taken in the first second of its window may be taken again in the last
(`hello_accepted_twice`). It is taken once in every run in which no collection
that may have dropped it lies before a presentation in its window
(`hello_accepted_once`), and a collection can do so only at the two ends of the
window (`forgotten_at_both_ends`).
-/

namespace Pizzini.Relay

open Runs Wire

variable {K : Type} [Ring K] [LinearOrder K]

/-! ## Constants (main.rs:322–334, 640) -/

def HELLO_MAX_CLOCK_SKEW_SECS : Nat := 60
def HELLO_REPLAY_WINDOW : K := 120
def MAX_HELLO_REPLAYS : Nat := 200000

/-! ## The check (main.rs:2656–2706) -/

/-- `libsignal_protocol::IdentityKey`. -/
structure IdentityKeys (Pub : Type) where
  decode : Bytes → Except String Pub
  verifySignature : Pub → Bytes → Bytes → Bool

/-- `HelloReplays`, by `HelloReplayKey`. -/
abbrev HelloReplays (K : Type) := Dict (PeerId × FixedBytes HELLO_NONCE_LEN) K

/-- The key a HELLO is recorded under. -/
def ParsedHello.replayKey (h : ParsedHello) : PeerId × FixedBytes HELLO_NONCE_LEN :=
  (h.peerId, h.nonce)

/-- `u64::abs_diff`. -/
def absDiff (a b : Nat) : Nat := max a b - min a b

/-- `now_secs`: whole seconds since the epoch, none before it. -/
def nowSecs [FloorSemiring K] (wall : K) : Nat := ⌊wall⌋₊

/-- `skew_secs` is not past the limit. -/
def ParsedHello.inWindow (h : ParsedHello) (nowSecs : Nat) : Prop :=
  absDiff h.timestampSecs.toNat nowSecs ≤ HELLO_MAX_CLOCK_SKEW_SECS

instance (h : ParsedHello) (nowSecs : Nat) : Decidable (h.inWindow nowSecs) :=
  inferInstanceAs (Decidable (_ ≤ _))

/-- `verify_hello_possession_proof`: the table after an accepted HELLO, or the
reason of the refusal. `nowSecs` is the wall clock when the timestamp is
checked, `now` the instant at which the table is locked. -/
def verifyHelloPossessionProof {Pub : Type} (keys : IdentityKeys Pub) (h : ParsedHello)
    (nowSecs : Nat) (now : K) (helloReplays : HelloReplays K) : Except String (HelloReplays K) :=
  if ¬ h.inWindow nowSecs then
    let skew := absDiff h.timestampSecs.toNat nowSecs
    .error s!"timestamp out of range (|Δ|={skew}s, |max|={HELLO_MAX_CLOCK_SKEW_SECS}s)"
  else match keys.decode h.peerId with
    | .error e => .error s!"peer_id is not a valid IdentityKey: {e}"
    | .ok identityPub =>
      let payload := buildHelloSigningPayload h.peerId h.verifyKey h.timestampSecs h.nonce.1
      if !keys.verifySignature identityPub payload h.signature then
        .error "signature does not validate against peer_id's IdentityKey"
      else if (helloReplays.lookup h.replayKey).isSome then
        .error "HELLO replay (peer_id, nonce) already seen"
      else if admitsNewSoftState false helloReplays.len MAX_HELLO_REPLAYS then
        .ok (helloReplays.insert h.replayKey now)
      else .ok helloReplays

/-- The signature is one of the identity key that `peer_id` stands for. -/
def ParsedHello.Proven {Pub : Type} (keys : IdentityKeys Pub) (h : ParsedHello) : Prop :=
  ∃ identityPub, keys.decode h.peerId = .ok identityPub ∧
    keys.verifySignature identityPub
      (buildHelloSigningPayload h.peerId h.verifyKey h.timestampSecs h.nonce.1) h.signature = true

omit [Ring K] [LinearOrder K] in
/-- A HELLO is accepted if it is in its window, proven and not in the table. -/
theorem verifyHello_eq_ok {Pub : Type} {keys : IdentityKeys Pub} {h : ParsedHello} {nowSecs : Nat}
    {now : K} {helloReplays helloReplays' : HelloReplays K} :
    verifyHelloPossessionProof keys h nowSecs now helloReplays = .ok helloReplays' ↔
      h.inWindow nowSecs ∧ h.Proven keys ∧ helloReplays.lookup h.replayKey = none ∧
        helloReplays' = if helloReplays.len < MAX_HELLO_REPLAYS then
          helloReplays.insert h.replayKey now else helloReplays := by
  have hadmits : admitsNewSoftState false helloReplays.len MAX_HELLO_REPLAYS = true ↔
      helloReplays.len < MAX_HELLO_REPLAYS := decide_eq_true_iff
  unfold verifyHelloPossessionProof
  by_cases hwindow : h.inWindow nowSecs
  · rw [if_neg (not_not.mpr hwindow), and_iff_right hwindow]
    cases hdecode : keys.decode h.peerId with
    | error e =>
      refine ⟨nofun, fun ⟨⟨identityPub, hpub, _⟩, _⟩ => ?_⟩
      rw [hdecode] at hpub
      cases hpub
    | ok identityPub =>
      simp only [ParsedHello.Proven, hdecode, Except.ok.injEq, exists_eq_left']
      cases keys.verifySignature identityPub _ h.signature with
      | false => exact ⟨nofun, fun hall => nomatch hall.1⟩
      | true =>
        cases hlook : helloReplays.lookup h.replayKey with
        | some t => exact ⟨nofun, fun hall => nomatch hall.2.1⟩
        | none =>
          by_cases hroom : helloReplays.len < MAX_HELLO_REPLAYS
          · rw [if_pos hroom]
            simp [hadmits.mpr hroom, eq_comm]
          · rw [if_neg hroom]
            simp [Bool.not_eq_true _ ▸ mt hadmits.mp hroom, eq_comm]
  · rw [if_pos hwindow]
    exact ⟨nofun, fun hall => absurd hall.1 hwindow⟩

omit [Ring K] [LinearOrder K] in
/-- An accepted HELLO is in its window and not in the table, and is recorded
if the table has room. -/
theorem verifyHello_ok {Pub : Type} {keys : IdentityKeys Pub} {h : ParsedHello} {nowSecs : Nat}
    {now : K} {helloReplays helloReplays' : HelloReplays K}
    (hroom : helloReplays.len < MAX_HELLO_REPLAYS)
    (hok : verifyHelloPossessionProof keys h nowSecs now helloReplays = .ok helloReplays') :
    h.inWindow nowSecs ∧ helloReplays.lookup h.replayKey = none ∧
      helloReplays' = helloReplays.insert h.replayKey now := by
  obtain ⟨hwindow, _, hnew, htable⟩ := verifyHello_eq_ok.mp hok
  rw [if_pos hroom] at htable
  exact ⟨hwindow, hnew, htable⟩

/-! ## What a signature covers -/

/-- The one field of a parsed HELLO whose length the type does not say. -/
theorem parseHello_verifyKey_length {body : Bytes} {h : ParsedHello}
    (hparse : parseHello body = .ok h) : h.verifyKey.length = VERIFY_KEY_LEN := by
  obtain ⟨⟨version, c⟩, _, hparse⟩ := bind_eq_ok.mp hparse
  simp only at hparse
  split at hparse
  · cases hparse
  obtain ⟨⟨peerId, c⟩, _, hparse⟩ := bind_eq_ok.mp hparse
  obtain ⟨⟨verifyKey, c⟩, _, hparse⟩ := bind_eq_ok.mp hparse
  simp only at hparse
  split at hparse
  · cases hparse
  next hlen =>
  obtain ⟨⟨timestampSecs, c⟩, _, hparse⟩ := bind_eq_ok.mp hparse
  obtain ⟨⟨nonceBlob, c⟩, _, hparse⟩ := bind_eq_ok.mp hparse
  simp only at hparse
  split at hparse
  next hnonce =>
    obtain ⟨⟨signature, c⟩, _, hparse⟩ := bind_eq_ok.mp hparse
    simp only at hparse
    split at hparse
    · cases hparse
    split at hparse
    · cases hparse
    · cases hparse
      exact not_not.mp hlen
  · cases hparse

/-- The signed bytes determine every signed field: behind the id, whose length
is not among them, all fields have fixed lengths. -/
theorem signing_payload_binds {body body' : Bytes} {h h' : ParsedHello}
    (hparse : parseHello body = .ok h) (hparse' : parseHello body' = .ok h')
    (heq : buildHelloSigningPayload h.peerId h.verifyKey h.timestampSecs h.nonce.1 =
      buildHelloSigningPayload h'.peerId h'.verifyKey h'.timestampSecs h'.nonce.1) :
    (h.peerId = h'.peerId ∧ h.verifyKey = h'.verifyKey ∧ h.timestampSecs = h'.timestampSecs ∧
      h.nonce = h'.nonce) ∧ (h.signature = h'.signature → h = h') := by
  have hkey := parseHello_verifyKey_length hparse
  have hkey' := parseHello_verifyKey_length hparse'
  unfold buildHelloSigningPayload at heq
  -- from the back, where the lengths are known
  obtain ⟨heq, hnonce⟩ := List.append_inj' heq (h.nonce.2.trans h'.nonce.2.symm)
  obtain ⟨heq, htime⟩ := List.append_inj' heq (by rw [length_beBytes, length_beBytes])
  obtain ⟨heq, hverify⟩ := List.append_inj' heq (hkey.trans hkey'.symm)
  have hpeer : h.peerId = h'.peerId := List.append_cancel_left heq
  have htime : h.timestampSecs = h'.timestampSecs := u64Bytes_inj htime
  have hnonce : h.nonce = h'.nonce := Subtype.ext hnonce
  refine ⟨⟨hpeer, hverify, htime, hnonce⟩, fun hsig => ?_⟩
  cases h
  cases h'
  cases hpeer
  cases hverify
  cases htime
  cases hnonce
  cases hsig
  rfl

/-- A HELLO of peer `[5]` on the wire, with the signature `sig`. -/
def signedBody (sig : UInt8) : Bytes :=
  PROTOCOL_VERSION :: (beBytes 2 1 ++ [5] ++ beBytes 2 VERIFY_KEY_LEN ++
    List.replicate VERIFY_KEY_LEN 0 ++ beBytes 8 1060 ++ beBytes 2 HELLO_NONCE_LEN ++
    List.replicate HELLO_NONCE_LEN 7 ++ beBytes 2 HELLO_SIG_LEN ++ List.replicate HELLO_SIG_LEN sig)

/-- Two signatures of one HELLO. -/
theorem signing_payload_binds_resigned :
    ∃ h h' : ParsedHello, parseHello (signedBody 0) = .ok h ∧ parseHello (signedBody 1) = .ok h' ∧
      h ≠ h' ∧ h.peerId = h'.peerId ∧ h.verifyKey = h'.verifyKey := by
  let h : ParsedHello :=
    ⟨[5], List.replicate 33 0, 1060, FixedBytes.replicate HELLO_NONCE_LEN 7, List.replicate 64 0⟩
  let h' : ParsedHello :=
    ⟨[5], List.replicate 33 0, 1060, FixedBytes.replicate HELLO_NONCE_LEN 7, List.replicate 64 1⟩
  have hparse : parseHello (signedBody 0) = .ok h := by decide +kernel
  have hparse' : parseHello (signedBody 1) = .ok h' := by decide +kernel
  obtain ⟨⟨hpeer, hkey, _⟩, _⟩ := signing_payload_binds hparse hparse' rfl
  exact ⟨h, h', hparse, hparse', by decide, hpeer, hkey⟩

/-! ## Runs -/

/-- The replay table. `clock` is the last instant at which it was locked; the
record of accepted HELLOs, with the instants of their entries, and of the
cutoffs of the collections so far are ghosts. -/
structure HelloRelay (K : Type) where
  clock : K
  replays : HelloReplays K
  accepted : List (ParsedHello × K)
  cutoffs : List K

/-- A call of `verify_hello_possession_proof` or a tick of
`spawn_hello_replay_gc`. Each reads a clock first and locks the table then. -/
inductive HelloEvent (K : Type) where
  | verify (h : ParsedHello) (checkedAt lockedAt : K)
  | gc (computedAt lockedAt : K)

/-- A relay that has just started. -/
def HelloRelay.started (clock : K) : HelloRelay K := ⟨clock, ∅, [], []⟩

section Step

variable [FloorSemiring K] {Pub : Type}

/-- A call of `verify_hello_possession_proof`. The wall clock is `epoch` at
boot and runs as the monotonic clock does. -/
def HelloRelay.verify (keys : IdentityKeys Pub) (epoch : K) (s : HelloRelay K) (h : ParsedHello)
    (checkedAt lockedAt : K) : HelloRelay K :=
  match verifyHelloPossessionProof keys h (nowSecs (epoch + checkedAt)) lockedAt s.replays with
  | .ok replays =>
    { s with
      clock := lockedAt
      replays
      accepted := s.accepted ++ [(h, lockedAt)] }
  | .error _ => { s with clock := lockedAt }

/-- A tick of the collector (main.rs:2830–2845). -/
def HelloRelay.gc (s : HelloRelay K) (computedAt lockedAt : K) : HelloRelay K :=
  let cutoff := instantCutoff computedAt HELLO_REPLAY_WINDOW
  { s with
    clock := lockedAt
    replays := retainAfter cutoff s.replays
    cutoffs := s.cutoffs ++ [cutoff] }

inductive HelloStep (keys : IdentityKeys Pub) (epoch : K) :
    HelloRelay K → HelloEvent K → HelloRelay K → Prop where
  | verify {s : HelloRelay K} {h : ParsedHello} {checkedAt lockedAt : K}
      (hclock : s.clock ≤ lockedAt) (horder : checkedAt ≤ lockedAt) :
      HelloStep keys epoch s (.verify h checkedAt lockedAt)
        (s.verify keys epoch h checkedAt lockedAt)
  | gc {s : HelloRelay K} {computedAt lockedAt : K}
      (hclock : s.clock ≤ lockedAt) (horder : computedAt ≤ lockedAt) :
      HelloStep keys epoch s (.gc computedAt lockedAt) (s.gc computedAt lockedAt)

end Step

/-- The table is below its cap, and the host has been up for longer than the
window. -/
def Ordinary (s : HelloRelay K) : HelloEvent K → Prop
  | .verify _ _ _ => s.replays.len < MAX_HELLO_REPLAYS
  | .gc computedAt _ => s.replays.len < MAX_HELLO_REPLAYS ∧ HELLO_REPLAY_WINDOW ≤ computedAt

instance (s : HelloRelay K) : ∀ e, Decidable (Ordinary s e)
  | .verify _ _ _ => inferInstanceAs (Decidable (_ < _))
  | .gc _ _ => inferInstanceAs (Decidable (_ ∧ _))

/-- No HELLO has been accepted twice. -/
def HelloRelay.AcceptedOnce (s : HelloRelay K) : Prop := (s.accepted.map Prod.fst).Nodup

/-! ## When a HELLO is accepted once -/

section Once

variable [FloorSemiring K] {Pub : Type} {keys : IdentityKeys Pub} {epoch : K}

/-- A HELLO that is presented in its window has not been accepted at an
instant that a cutoff has reached since. -/
def NotForgotten (epoch : K) (s : HelloRelay K) : HelloEvent K → Prop
  | .verify h checkedAt _ => h.inWindow (nowSecs (epoch + checkedAt)) →
      ∀ t, (h, t) ∈ s.accepted → ∀ cutoff ∈ s.cutoffs, cutoff < t
  | .gc _ _ => True

/-- Every accepted HELLO is in the table, or a cutoff has reached it. -/
structure HelloInv (s : HelloRelay K) : Prop where
  once : s.AcceptedOnce
  recorded : ∀ h t, (h, t) ∈ s.accepted →
    s.replays.lookup h.replayKey = some t ∨ ∃ cutoff ∈ s.cutoffs, t ≤ cutoff

omit [Ring K] [FloorSemiring K] in
theorem helloInv_started (clock : K) : HelloInv (HelloRelay.started clock) where
  once := List.nodup_nil
  recorded := nofun

/-- A call keeps the invariant. -/
theorem HelloInv.verify {s : HelloRelay K} (hinv : HelloInv s) {h : ParsedHello}
    {checkedAt lockedAt : K} (hroom : s.replays.len < MAX_HELLO_REPLAYS)
    (hok : NotForgotten epoch s (.verify h checkedAt lockedAt)) :
    HelloInv (s.verify keys epoch h checkedAt lockedAt) := by
  unfold HelloRelay.verify
  split
  next replays haccepted =>
    obtain ⟨hwindow, hnew, rfl⟩ := verifyHello_ok hroom haccepted
    -- the key is not in the table, so a cutoff has reached every HELLO it was accepted with
    have hforgotten : ∀ h' t, (h', t) ∈ s.accepted → h'.replayKey = h.replayKey →
        ∃ cutoff ∈ s.cutoffs, t ≤ cutoff := by
      intro h' t hmem hkey
      cases hinv.recorded h' t hmem with
      | inl hlook =>
        rw [hkey, hnew] at hlook
        cases hlook
      | inr hcut => exact hcut
    constructor
    · show ((s.accepted ++ [(h, lockedAt)]).map Prod.fst).Nodup
      rw [List.map_append, List.map_singleton]
      refine List.nodup_append.mpr ⟨hinv.once, List.nodup_singleton h, ?_⟩
      intro h' hmem h'' hlast heq
      rw [List.mem_singleton.mp hlast] at heq
      rw [heq] at hmem
      obtain ⟨⟨_, t⟩, hbefore, rfl⟩ := List.mem_map.mp hmem
      obtain ⟨cutoff, hcut, hle⟩ := hforgotten _ t hbefore rfl
      exact absurd (hok hwindow t hbefore cutoff hcut) (not_lt_of_ge hle)
    · intro h' t hmem
      cases List.mem_append.mp hmem with
      | inl hold =>
        by_cases hkey : h'.replayKey = h.replayKey
        · exact .inr (hforgotten h' t hold hkey)
        · rw [AList.lookup_insert_ne hkey]
          exact hinv.recorded h' t hold
      | inr hlast =>
        cases List.mem_singleton.mp hlast
        exact .inl (AList.lookup_insert _)
  next => exact ⟨hinv.once, hinv.recorded⟩

omit [FloorSemiring K] in
/-- So does a collection. -/
theorem HelloInv.gc {s : HelloRelay K} (hinv : HelloInv s) (computedAt lockedAt : K) :
    HelloInv (s.gc computedAt lockedAt) where
  once := hinv.once
  recorded := by
    intro h t hmem
    show (retainAfter _ s.replays).lookup _ = _ ∨ ∃ cutoff ∈ s.cutoffs ++ [_], t ≤ cutoff
    rw [lookup_retainAfter]
    cases hinv.recorded h t hmem with
    | inl hlook =>
      rw [hlook, Option.filter_some]
      by_cases hlive : instantCutoff computedAt HELLO_REPLAY_WINDOW < t
      · exact .inl (if_pos (decide_eq_true hlive))
      · exact .inr ⟨_, List.mem_append_right _ (List.mem_singleton_self _), le_of_not_gt hlive⟩
    | inr hcut =>
      obtain ⟨cutoff, hmem, hle⟩ := hcut
      exact .inr ⟨cutoff, List.mem_append_left _ hmem, hle⟩

/-- In every run in which no collection has come between a HELLO's acceptance
and a presentation in its window that the collection may have dropped, no HELLO
is accepted twice. -/
theorem hello_accepted_once {clock : K} {s : HelloRelay K}
    (hrun : Reach (HelloStep keys epoch) (fun s e => Ordinary s e ∧ NotForgotten epoch s e)
      (HelloRelay.started clock) s) : s.AcceptedOnce := by
  have hinv : HelloInv s := by
    refine hrun.invariant HelloInv (fun {s e s'} hinv hok hstep => ?_) (helloInv_started clock)
    cases hstep with
    | verify _ _ => exact hinv.verify hok.1 hok.2
    | gc _ _ => exact hinv.gc _ _
  exact hinv.once

/-! ## What is forgotten too early -/

variable [IsStrictOrderedRing K]

/-- A HELLO that was checked and recorded at one instant and is in its window
again when it may have been dropped was in the first second of its window then
and is in the last second now. -/
theorem forgotten_at_both_ends {h : ParsedHello} {t t' : K} (hepoch : 0 ≤ epoch + t)
    (hfirst : h.inWindow (nowSecs (epoch + t))) (hold : t + HELLO_REPLAY_WINDOW ≤ t')
    (hagain : h.inWindow (nowSecs (epoch + t'))) :
    nowSecs (epoch + t) + HELLO_MAX_CLOCK_SKEW_SECS = h.timestampSecs.toNat ∧
      nowSecs (epoch + t') = h.timestampSecs.toNat + HELLO_MAX_CLOCK_SKEW_SECS := by
  have hlater : nowSecs (epoch + t) + 120 ≤ nowSecs (epoch + t') := by
    have hfloor : ⌊epoch + t + 120⌋₊ = ⌊epoch + t⌋₊ + 120 := Nat.floor_add_ofNat hepoch 120
    have hmono : ⌊epoch + t + 120⌋₊ ≤ ⌊epoch + t'⌋₊ := by
      refine Nat.floor_mono ?_
      rw [add_assoc]
      exact add_le_add_right hold epoch
    rw [hfloor] at hmono
    exact hmono
  simp only [ParsedHello.inWindow, absDiff, HELLO_MAX_CLOCK_SKEW_SECS] at hfirst hagain ⊢
  omega

end Once

/-! ## A HELLO that is accepted twice -/

/-- A libsignal that takes every key and every signature. -/
def lenientKeys : IdentityKeys Unit := ⟨fun _ => .ok (), fun _ _ _ => true⟩

/-- A HELLO of peer `[5]` with timestamp 1060. -/
def earlyHello : ParsedHello where
  peerId := [5]
  verifyKey := List.replicate 33 0
  timestampSecs := 1060
  nonce := FixedBytes.replicate HELLO_NONCE_LEN 7
  signature := List.replicate 64 0

/-- It is presented at second 1000, the collector runs at 1120.25, and it is
presented again at 1120.5. -/
def replayedRelay : HelloRelay ℚ :=
  (((HelloRelay.started 0).verify lenientKeys 0 earlyHello 1000 1000).gc (4481 / 4)
    (4481 / 4)).verify lenientKeys 0 earlyHello (2241 / 2) (2241 / 2)

theorem hello_accepted_twice :
    Reach (HelloStep lenientKeys (0 : ℚ)) Ordinary (HelloRelay.started 0) replayedRelay ∧
      ¬ replayedRelay.AcceptedOnce := by
  constructor
  · refine ((Reach.refl.snoc (e := .verify earlyHello 1000 1000) (.verify ?_ ?_) ?_).snoc
      (e := .gc (4481 / 4) (4481 / 4)) (.gc ?_ ?_) ?_).snoc
      (e := .verify earlyHello (2241 / 2) (2241 / 2)) (.verify ?_ ?_) ?_
    all_goals first | exact le_refl _ | decide +kernel
  · have htwice : replayedRelay.accepted.map Prod.fst = [earlyHello, earlyHello] := by
      decide +kernel
    rw [HelloRelay.AcceptedOnce, htwice]
    decide

/-- A collection at second 1060 keeps the HELLO, and second 1120 refuses it. -/
def rememberingRelay : HelloRelay ℚ :=
  ((HelloRelay.started 0).verify lenientKeys 0 earlyHello 1000 1000).gc 1060 1060

theorem hello_accepted_once_sample :
    (rememberingRelay.verify lenientKeys 0 earlyHello 1120 1120).AcceptedOnce := by
  have haccepted : rememberingRelay.accepted = [(earlyHello, 1000)] := by decide +kernel
  have hcutoffs : rememberingRelay.cutoffs = [940] := by decide +kernel
  have hagain : NotForgotten 0 rememberingRelay (.verify earlyHello 1120 1120) := by
    intro _ t hmem cutoff hcut
    rw [haccepted] at hmem
    rw [hcutoffs] at hcut
    cases List.mem_singleton.mp hmem
    rw [List.mem_singleton.mp hcut]
    decide +kernel
  have hrun : Reach (HelloStep lenientKeys (0 : ℚ)) (fun s e => Ordinary s e ∧ NotForgotten 0 s e)
      (HelloRelay.started 0) (rememberingRelay.verify lenientKeys 0 earlyHello 1120 1120) := by
    refine ((Reach.refl.snoc (e := .verify earlyHello 1000 1000) (.verify ?_ ?_)
      ⟨?_, fun _ => nofun⟩).snoc (e := .gc 1060 1060) (.gc ?_ ?_) ⟨?_, trivial⟩).snoc
      (e := .verify earlyHello 1120 1120) (.verify ?_ ?_) ⟨?_, hagain⟩
    all_goals first | exact le_refl _ | decide +kernel
  exact hello_accepted_once hrun

end Pizzini.Relay
