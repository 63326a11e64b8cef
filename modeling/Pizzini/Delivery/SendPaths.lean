import Mathlib.Logic.Function.Basic
import Pizzini.Lib.Bytes
import Pizzini.Lib.Runs

/-!
# The ratchet and the wire (all paths that seal a frame)

`encryptSealed` takes the next sending counter of a peer in memory; `persistSession`
writes the counters to disk, and may fail. A relaunch starts from disk. The rule of the
send pipeline is fail-closed (ChatStore.swift:2349–2360): no ciphertext leaves before the
counter it used is on disk, or the next launch uses the counter again.

Six paths follow the rule (`Path.guarded`). Four hand the frame over with no
`persistSession` after the seal, and the legs of a group message wait in memory for a
random delay and are handed over without one. Text, attachment and group frames also
have a row in the outbox, written before the counter is on disk, from which the retry
walk sends the same bytes again, also after a relaunch.

- `Sender.step`: one step of a path, a delayed leg, the retry walk, a stop;
- `Durable`: the invariant of runs that keep to `FailClosed`.
-/

namespace Pizzini.Delivery

open Wire

/-- The paths that seal a frame. -/
inductive Path where
  | sendV2
  | shipPreparedAttachment
  | emitAck
  | emitReadReceipt
  | sendChainRefreshRequest
  | sendChainSeedDelivery
  | sendGroupMessage
  | shipPreparedGroupAttachment
  | broadcastGroupOp
  | broadcastSenderKeyDistribution
  | broadcastGroupBootstrap
deriving DecidableEq

/-- `guard persistSession() else { … return }` between the seal and the send. -/
def Path.guarded : Path → Bool
  | .sendV2 | .shipPreparedAttachment | .emitAck | .emitReadReceipt
  | .sendChainRefreshRequest | .sendChainSeedDelivery => true
  | .sendGroupMessage | .shipPreparedGroupAttachment | .broadcastGroupOp
  | .broadcastSenderKeyDistribution | .broadcastGroupBootstrap => false

/-- The paths that write an outbox row. -/
def Path.outboxed : Path → Bool
  | .sendV2 | .shipPreparedAttachment | .sendGroupMessage | .shipPreparedGroupAttachment => true
  | _ => false

/-- Sealed bytes: the peer, the counter they were sealed at, and the plaintext. -/
structure Frame where
  peer : Bytes
  counter : Nat
  body : Bytes
deriving DecidableEq

/-- A frame kept for later. `saved` is history: `persistSession` has succeeded since the
frame was sealed. -/
structure HeldFrame where
  frame : Frame
  saved : Bool
deriving DecidableEq

/-- Where the main actor stands. -/
inductive SendPhase where
  | idle
  /-- sealed; next: the outbox row, on the paths that have one -/
  | sealed (path : Path) (f : Frame)
  /-- next: `persistSession` on a guarded path, the hand-over on another -/
  | logged (path : Path) (f : Frame)
  /-- `persistSession` succeeded; next: the hand-over -/
  | committed (path : Path) (f : Frame)
  /-- `sendGroupMessage` is sealing its legs; next: their rows, in one batch -/
  | gathering (legs : List Frame)

/-- The sending counters in memory and on disk, the group legs in their delay, the outbox
rows that can still be retried (on disk), and every frame handed to `sendSealedToRelays`. -/
structure Sender where
  phase : SendPhase
  counter : Bytes → Nat
  stored : Bytes → Nat
  waiting : List HeldFrame
  outbox : List HeldFrame
  wire : List Frame

/-- A fresh install. -/
def Sender.fresh : Sender :=
  { phase := .idle, counter := fun _ => 0, stored := fun _ => 0, waiting := [], outbox := [],
    wire := [] }

def HeldFrame.save (h : HeldFrame) : HeldFrame := { h with saved := true }

/-- `persistSession`: `ok` is whether the write succeeds. -/
def Sender.persistSession (d : Sender) (ok : Bool) : Sender :=
  if ok then
    { d with
      stored := d.counter
      waiting := d.waiting.map HeldFrame.save
      outbox := d.outbox.map HeldFrame.save }
  else d

/-- The frame that `encryptSealed` makes next for a peer. -/
def Sender.nextFrame (d : Sender) (peer body : Bytes) : Frame :=
  { peer := peer, counter := d.counter peer, body := body }

/-- `encryptSealed` takes the counter. -/
def Sender.takeCounter (d : Sender) (peer : Bytes) : Sender :=
  { d with counter := Function.update d.counter peer (d.counter peer + 1) }

/-- The frame is handed to `sendSealedToRelays`; if a relay is `ready`, its outbox row is
marked relayed and not retried. -/
def Sender.handOver (d : Sender) (f : Frame) (ready : Bool) : Sender :=
  { d with
    wire := d.wire ++ [f]
    outbox := if ready then d.outbox.filter fun h => h.frame ≠ f else d.outbox }

/-- What the app does next. -/
inductive SealEvent where
  /-- a path seals a frame -/
  | encryptSealed (path : Path) (peer body : Bytes)
  /-- the next step of that path; `ok`: its write succeeds, or a relay is ready -/
  | advance (ok : Bool)
  /-- the delay of a group leg is over -/
  | release (index : Nat) (ready : Bool)
  /-- `runRetryWalk`, or the user's retry, re-sends an outbox row -/
  | retry (index : Nat)
  /-- `persistSession` elsewhere: on receive, around `groupEncrypt`, after a fan-out -/
  | persist (ok : Bool)
  /-- the process ends and is launched again -/
  | stop

/-- One step. The paths run on the main actor and do not interleave; what does not fit
the phase does nothing. -/
def Sender.step (d : Sender) : SealEvent → Sender
  | .encryptSealed path peer body =>
    let f := d.nextFrame peer body
    match d.phase with
    | .idle =>
      { d.takeCounter peer with
        phase := if path = .sendGroupMessage then .gathering [f] else .sealed path f }
    | .gathering legs =>
      if path = .sendGroupMessage then
        { d.takeCounter peer with phase := .gathering (legs ++ [f]) }
      else d
    | _ => d
  | .advance ok =>
    match d.phase with
    | .idle => d
    | .sealed path f =>
      { d with
        outbox := if path.outboxed then d.outbox ++ [⟨f, false⟩] else d.outbox
        phase := .logged path f }
    | .logged path f =>
      if path.guarded then
        if ok then { d.persistSession true with phase := .committed path f }
        -- aborted: the row is marked failed, and not retried
        else { d with outbox := d.outbox.filter (fun h => h.frame ≠ f), phase := .idle }
      else { d.handOver f ok with phase := .idle }
    | .committed _ f => { d.handOver f ok with phase := .idle }
    | .gathering legs =>
      { d with
        outbox := d.outbox ++ legs.map fun f => ⟨f, false⟩
        waiting := d.waiting ++ legs.map fun f => ⟨f, false⟩
        phase := .idle }
  | .release index ready =>
    match d.phase, d.waiting[index]? with
    | .idle, some h => { d.handOver h.frame ready with waiting := d.waiting.eraseIdx index }
    | _, _ => d
  | .retry index =>
    match d.phase, d.outbox[index]? with
    | .idle, some h => d.handOver h.frame false
    | _, _ => d
  | .persist ok =>
    match d.phase with
    | .idle => d.persistSession ok
    | _ => d
  | .stop => { d with phase := .idle, counter := d.stored, waiting := [] }

/-- The steps that keep the rule: a frame that is handed over at once comes from a guarded
path, a delayed leg and a retried row have seen a `persistSession` since their seal, and
the process does not stop while a row that can be retried has not. -/
def FailClosed (d : Sender) : SealEvent → Prop
  | .advance _ => ∀ path f, d.phase = .logged path f → path.guarded = true
  | .release index _ => ∀ h ∈ d.waiting[index]?, h.saved = true
  | .retry index => ∀ h ∈ d.outbox[index]?, h.saved = true
  | .stop => ∀ h ∈ d.outbox, h.saved = true
  | _ => True

/-- Runs of the app whose steps meet `ok`. -/
def Sender.Reaches (ok : Sender → SealEvent → Prop) : Sender → Sender → Prop :=
  Runs.Reach (fun d e d' => Sender.step d e = d') ok

/-! ## The invariant -/

/-- The frames the main actor holds. -/
def SendPhase.frames : SendPhase → List Frame
  | .idle => []
  | .sealed _ f | .logged _ f | .committed _ f => [f]
  | .gathering legs => legs

/-- The frames that have been sent or can still be. -/
def Sender.frames (d : Sender) : List Frame :=
  d.phase.frames ++ (d.waiting ++ d.outbox).map HeldFrame.frame ++ d.wire

/-- The invariant: sealed frames lie below the counter and are told apart by it; saved
and sent ones lie below the counter on disk. -/
structure Durable (d : Sender) : Prop where
  le : ∀ peer, d.stored peer ≤ d.counter peer
  below : ∀ f ∈ d.frames, f.counter < d.counter f.peer
  unique : ∀ f ∈ d.frames, ∀ f' ∈ d.frames, f.peer = f'.peer → f.counter = f'.counter → f = f'
  saved : ∀ h ∈ d.waiting ++ d.outbox, h.saved = true → h.frame.counter < d.stored h.frame.peer
  committed : ∀ path f, d.phase = .committed path f → f.counter < d.stored f.peer
  wire : ∀ f ∈ d.wire, f.counter < d.stored f.peer

theorem Durable.fresh : Durable .fresh where
  le := fun _ => Nat.le_refl _
  below := nofun
  unique := nofun
  saved := nofun
  committed := nofun
  wire := nofun

variable {d d' : Sender}

theorem mem_frames {f : Frame} :
    f ∈ d.frames ↔ f ∈ d.phase.frames ∨ (∃ h ∈ d.waiting ++ d.outbox, h.frame = f) ∨ f ∈ d.wire := by
  rw [Sender.frames, List.mem_append, List.mem_append, List.mem_map, or_assoc]

/-- A step that seals nothing. -/
theorem Durable.next (h : Durable d) (hcounter : d'.counter = d.counter)
    (hle : ∀ peer, d'.stored peer ≤ d.counter peer)
    (hframes : ∀ f ∈ d'.frames, f ∈ d.frames)
    (hsaved : ∀ k ∈ d'.waiting ++ d'.outbox, k.saved = true →
      k.frame.counter < d'.stored k.frame.peer)
    (hcommitted : ∀ path f, d'.phase = .committed path f → f.counter < d'.stored f.peer)
    (hwire : ∀ f ∈ d'.wire, f.counter < d'.stored f.peer) : Durable d' where
  le := by
    rw [hcounter]
    exact hle
  below := by
    rw [hcounter]
    exact fun f hf => h.below f (hframes f hf)
  unique := fun f hf f' hf' => h.unique f (hframes f hf) f' (hframes f' hf')
  saved := hsaved
  committed := hcommitted
  wire := hwire

/-- A frame in hand is live. -/
theorem mem_frames_of_phase {f : Frame} (h : f ∈ d.phase.frames) : f ∈ d.frames :=
  mem_frames.mpr (.inl h)

theorem mem_frames_of_held {k : HeldFrame} (h : k ∈ d.waiting ++ d.outbox) : k.frame ∈ d.frames :=
  mem_frames.mpr (.inr (.inl ⟨k, h, rfl⟩))

/-- `encryptSealed` makes a frame that no live one shares its counter with. -/
theorem Durable.seals (h : Durable d) (peer body : Bytes) {phase : SendPhase}
    (hphase : ∀ f ∈ phase.frames, f ∈ d.phase.frames ∨ f = d.nextFrame peer body)
    (hnot : ∀ path f, phase ≠ .committed path f) :
    Durable { d.takeCounter peer with phase := phase } := by
  have hframes : ∀ f ∈ ({ d.takeCounter peer with phase := phase } : Sender).frames,
      f ∈ d.frames ∨ f = d.nextFrame peer body := by
    intro f hf
    rcases mem_frames.mp hf with hf | hf
    · exact (hphase f hf).imp_left mem_frames_of_phase
    · exact .inl (mem_frames.mpr (.inr hf))
  have hgrows : ∀ p, d.counter p ≤ (d.takeCounter peer).counter p := by
    intro p
    show d.counter p ≤ Function.update d.counter peer (d.counter peer + 1) p
    by_cases hp : p = peer
    · rw [hp, Function.update_self]
      exact Nat.le_succ _
    · refine Nat.le_of_eq ?_
      rw [Function.update_of_ne hp]
  have hnext : (d.nextFrame peer body).counter < (d.takeCounter peer).counter peer := by
    show d.counter peer < Function.update d.counter peer (d.counter peer + 1) peer
    rw [Function.update_self]
    exact Nat.lt_succ_self _
  exact
    { le := fun p => Nat.le_trans (h.le p) (hgrows p)
      below := by
        intro f hf
        rcases hframes f hf with hf | rfl
        · exact Nat.lt_of_lt_of_le (h.below f hf) (hgrows _)
        · exact hnext
      unique := by
        -- an old frame is below the counter that the new one takes
        have hold : ∀ f ∈ d.frames, f.peer = peer → f.counter ≠ d.counter peer := by
          rintro f hf rfl
          exact Nat.ne_of_lt (h.below f hf)
        intro f hf f' hf' hpeer hcounter
        rcases hframes f hf with hf | rfl
        · rcases hframes f' hf' with hf' | rfl
          · exact h.unique f hf f' hf' hpeer hcounter
          · exact absurd hcounter (hold f hf hpeer)
        · rcases hframes f' hf' with hf' | rfl
          · exact absurd hcounter.symm (hold f' hf' hpeer.symm)
          · rfl
      saved := h.saved
      committed := fun path f heq => absurd heq (hnot path f)
      wire := h.wire }

theorem Durable.persistSession (h : Durable d) (ok : Bool) : Durable (d.persistSession ok) := by
  rw [Sender.persistSession]
  split
  · have hheld : ∀ k ∈ d.waiting.map HeldFrame.save ++ d.outbox.map HeldFrame.save,
        k.frame ∈ d.frames := by
      intro k hk
      rw [← List.map_append] at hk
      obtain ⟨k₀, hk₀, rfl⟩ := List.mem_map.mp hk
      show k₀.frame ∈ d.frames
      exact mem_frames_of_held hk₀
    refine h.next rfl (fun _ => Nat.le_refl _) (fun f hf => ?_) ?_ ?_ ?_
    · rcases mem_frames.mp hf with hf | ⟨k, hk, rfl⟩ | hf
      · exact mem_frames_of_phase hf
      · exact hheld k hk
      · exact mem_frames.mpr (.inr (.inr hf))
    · exact fun k hk _ => h.below _ (hheld k hk)
    · intro path f heq
      refine h.below f (mem_frames_of_phase ?_)
      rw [show d.phase = .committed path f from heq]
      exact List.mem_cons_self
    · exact fun f hf => h.below f (mem_frames.mpr (.inr (.inr hf)))
  · exact h

/-- A live frame below the counter on disk is handed over; some held frames go. -/
theorem Durable.handOver (h : Durable d) {f : Frame} (ready : Bool) {waiting : List HeldFrame}
    (hlive : f ∈ d.frames) (hstored : f.counter < d.stored f.peer)
    (hwaiting : ∀ k ∈ waiting, k ∈ d.waiting) :
    Durable { d.handOver f ready with waiting := waiting, phase := .idle } := by
  have houtbox : ∀ k ∈ (d.handOver f ready).outbox, k ∈ d.outbox := by
    intro k hk
    rw [Sender.handOver] at hk
    dsimp only at hk
    split at hk
    · exact List.mem_of_mem_filter hk
    · exact hk
  have hheld : ∀ k ∈ waiting ++ (d.handOver f ready).outbox, k ∈ d.waiting ++ d.outbox := by
    intro k hk
    rcases List.mem_append.mp hk with hk | hk
    · exact List.mem_append_left _ (hwaiting k hk)
    · exact List.mem_append_right _ (houtbox k hk)
  have hwire : ∀ f' ∈ (d.handOver f ready).wire, f' ∈ d.wire ∨ f' = f := by
    intro f' hf'
    simpa [Sender.handOver] using hf'
  refine h.next rfl h.le (fun f' hf' => ?_) ?_ nofun ?_
  · rcases mem_frames.mp hf' with hf' | ⟨k, hk, rfl⟩ | hf'
    · cases hf'
    · exact mem_frames_of_held (hheld k hk)
    · rcases hwire f' hf' with hf' | rfl
      · exact mem_frames.mpr (.inr (.inr hf'))
      · exact hlive
  · exact fun k hk => h.saved k (hheld k hk)
  · intro f' hf'
    rcases hwire f' hf' with hf' | rfl
    · exact h.wire f' hf'
    · exact hstored

/-- Frames in hand get their rows or their delay, unsaved. -/
theorem Durable.logs (h : Durable d) {waiting outbox : List HeldFrame} {phase : SendPhase}
    (hheld : ∀ k ∈ waiting ++ outbox, k ∈ d.waiting ++ d.outbox ∨
      k.saved = false ∧ k.frame ∈ d.phase.frames)
    (hphase : ∀ f ∈ phase.frames, f ∈ d.phase.frames)
    (hnot : ∀ path f, phase ≠ .committed path f) :
    Durable { d with waiting := waiting, outbox := outbox, phase := phase } := by
  refine h.next rfl h.le (fun f hf => ?_) ?_ ?_ h.wire
  · rcases mem_frames.mp hf with hf | ⟨k, hk, rfl⟩ | hf
    · exact mem_frames_of_phase (hphase f hf)
    · rcases hheld k hk with hk | ⟨-, hk⟩
      · exact mem_frames_of_held hk
      · exact mem_frames_of_phase hk
    · exact mem_frames.mpr (.inr (.inr hf))
  · intro k hk hsaved
    rcases hheld k hk with hk | ⟨hunsaved, -⟩
    · exact h.saved k hk hsaved
    · rw [hunsaved] at hsaved
      cases hsaved
  · exact fun path f heq => absurd heq (hnot path f)

theorem Durable.advance (h : Durable d) {ok : Bool} (hsafe : FailClosed d (.advance ok)) :
    Durable (d.step (.advance ok)) := by
  rw [Sender.step]
  split
  · exact h
  · rename_i path f heq
    refine h.logs (fun k hk => ?_) (fun f' hf' => ?_) nofun
    · split at hk
      · rw [← List.append_assoc] at hk
        rcases List.mem_append.mp hk with hk | hk
        · exact .inl hk
        · refine .inr ⟨?_, ?_⟩
          · rw [List.mem_singleton.mp hk]
          · rw [List.mem_singleton.mp hk, heq]
            exact List.mem_cons_self
      · exact .inl hk
    · rw [heq]
      exact hf'
  · rename_i path f heq
    rw [if_pos (hsafe path f heq)]
    have hlive : f ∈ d.phase.frames := by
      rw [heq]
      exact List.mem_cons_self
    split
    · -- the counter is on disk
      have hstored := h.persistSession true
      refine hstored.next rfl hstored.le (fun f' hf' => ?_) hstored.saved ?_ hstored.wire
      · rcases mem_frames.mp hf' with hf' | hf'
        · rw [List.mem_singleton.mp hf']
          exact mem_frames_of_phase hlive
        · exact mem_frames.mpr (.inr hf')
      · intro path' f' heq'
        obtain ⟨-, rfl⟩ := SendPhase.committed.inj heq'
        exact h.below f (mem_frames_of_phase hlive)
    · refine h.logs (fun k hk => .inl ?_) nofun nofun
      rcases List.mem_append.mp hk with hk | hk
      · exact List.mem_append_left _ hk
      · exact List.mem_append_right _ (List.mem_of_mem_filter hk)
  · rename_i path f heq
    have hlive : f ∈ d.phase.frames := by
      rw [heq]
      exact List.mem_cons_self
    exact h.handOver ok (mem_frames_of_phase hlive) (h.committed path f heq) fun _ hk => hk
  · rename_i legs heq
    refine h.logs (fun k hk => ?_) nofun nofun
    have hleg : k ∈ legs.map (fun f => HeldFrame.mk f false) →
        k.saved = false ∧ k.frame ∈ d.phase.frames := by
      intro hk
      obtain ⟨f, hf, rfl⟩ := List.mem_map.mp hk
      rw [heq]
      exact ⟨rfl, hf⟩
    rcases List.mem_append.mp hk with hk | hk
    · rcases List.mem_append.mp hk with hk | hk
      · exact .inl (List.mem_append_left _ hk)
      · exact .inr (hleg hk)
    · rcases List.mem_append.mp hk with hk | hk
      · exact .inl (List.mem_append_right _ hk)
      · exact .inr (hleg hk)

/-- A step that keeps the rule keeps the invariant. -/
theorem Durable.step (h : Durable d) {e : SealEvent} (hsafe : FailClosed d e) :
    Durable (d.step e) := by
  cases e with
  | encryptSealed path peer body =>
    rw [Sender.step]
    split
    · refine h.seals peer body (fun f hf => .inr ?_) fun path' f => ?_
      · split at hf <;> exact List.mem_singleton.mp hf
      · split <;> nofun
    · rename_i legs heq
      split
      · refine h.seals peer body (fun f hf => ?_) nofun
        rw [heq]
        rcases List.mem_append.mp hf with hf | hf
        · exact .inl hf
        · exact .inr (List.mem_singleton.mp hf)
      · exact h
    · exact h
  | advance ok => exact h.advance hsafe
  | release index ready =>
    rw [Sender.step]
    split
    · rename_i k hidle hlookup
      have hmem : k ∈ d.waiting ++ d.outbox :=
        List.mem_append_left _ (List.mem_of_getElem? hlookup)
      have hfewer : ∀ k' ∈ d.waiting.eraseIdx index, k' ∈ d.waiting :=
        fun _ hk => List.mem_of_mem_eraseIdx hk
      have hsent := h.handOver ready (mem_frames_of_held hmem)
        (h.saved k hmem (hsafe k hlookup)) hfewer
      rw [← hidle] at hsent
      exact hsent
    · exact h
  | retry index =>
    rw [Sender.step]
    split
    · rename_i k hidle hlookup
      have hmem : k ∈ d.waiting ++ d.outbox :=
        List.mem_append_right _ (List.mem_of_getElem? hlookup)
      have hsent := h.handOver false (mem_frames_of_held hmem)
        (h.saved k hmem (hsafe k hlookup)) (fun _ hk => hk)
      rw [← hidle] at hsent
      exact hsent
    · exact h
  | persist ok =>
    rw [Sender.step]
    split
    · exact h.persistSession ok
    · exact h
  | stop =>
    have hstored : ∀ f ∈ ({ d with phase := .idle, counter := d.stored, waiting := [] } :
        Sender).frames, f ∈ d.frames ∧ f.counter < d.stored f.peer := by
      intro f hf
      rcases mem_frames.mp hf with hf | ⟨k, hk, rfl⟩ | hf
      · cases hf
      · have hmem : k ∈ d.waiting ++ d.outbox := List.mem_append_right _ hk
        exact ⟨mem_frames_of_held hmem, h.saved k hmem (hsafe k hk)⟩
      · exact ⟨mem_frames.mpr (.inr (.inr hf)), h.wire f hf⟩
    exact
      { le := fun _ => Nat.le_refl _
        below := fun f hf => (hstored f hf).2
        unique := fun f hf f' hf' => h.unique f (hstored f hf).1 f' (hstored f' hf').1
        saved := fun k hk => h.saved k (List.mem_append_right _ hk)
        committed := nofun
        wire := h.wire }

/-- In every run that keeps the rule, each frame that has been handed over lies below the
counter on disk, so no counter carries two plaintexts. -/
theorem sealed_frames_durable (hrun : Sender.Reaches FailClosed .fresh d) :
    (∀ f ∈ d.wire, f.counter + 1 ≤ d.stored f.peer) ∧
      ∀ f ∈ d.wire, ∀ f' ∈ d.wire, f.peer = f'.peer → f.counter = f'.counter →
        f.body = f'.body := by
  have hinv : Durable d :=
    Runs.Reach.invariant hrun Durable (fun h hsafe hstep => hstep ▸ h.step hsafe) .fresh
  refine ⟨hinv.wire, fun f hf f' hf' hpeer hcounter => ?_⟩
  have hsame := hinv.unique f (mem_frames.mpr (.inr (.inr hf))) f'
    (mem_frames.mpr (.inr (.inr hf'))) hpeer hcounter
  rw [hsame]

/-! ## Runs on fixed frames -/

/-- The app after a list of events. -/
def Sender.run (d : Sender) (es : List SealEvent) : Sender := es.foldl Sender.step d

/-- Without a condition on the steps, every list of events is a run. -/
theorem Sender.reaches_run (d : Sender) (es : List SealEvent) :
    Sender.Reaches (fun _ _ => True) d (d.run es) := by
  induction es generalizing d with
  | nil => exact .refl
  | cons e es ih => exact (Runs.Reach.refl.snoc rfl trivial).trans (ih (d.step e))

/-- A text is sent, then a group message with one leg, whose delay ends after another
`persistSession`. -/
theorem text_and_leg_durable :
    ∃ d : Sender, Sender.Reaches FailClosed .fresh d ∧
      d.wire = [⟨[1], 0, [7]⟩, ⟨[1], 1, [8]⟩] ∧
      (∀ f ∈ d.wire, f.counter + 1 ≤ d.stored f.peer) ∧
      ∀ f ∈ d.wire, ∀ f' ∈ d.wire, f.peer = f'.peer → f.counter = f'.counter →
        f.body = f'.body := by
  have htext : Sender.Reaches FailClosed .fresh (Sender.fresh.run
      [.encryptSealed .sendV2 [1] [7], .advance true, .advance true, .advance true]) :=
    (((Runs.Reach.refl.snoc (e := .encryptSealed .sendV2 [1] [7]) rfl trivial).snoc (e := .advance true) rfl
      (by intro path f heq; cases heq)).snoc (e := .advance true) rfl
      (by intro path f heq; cases heq; rfl)).snoc (e := .advance true) rfl
      (by intro path f heq; cases heq)
  have hrun := (((htext.snoc (e := .encryptSealed .sendGroupMessage [1] [8]) rfl trivial).snoc
    (e := .advance true) rfl (by intro path f heq; cases heq)).snoc (e := .persist true) rfl
    trivial).snoc (e := .release 0 true) rfl (by intro h heq; cases heq; rfl)
  exact ⟨_, hrun, by decide +kernel, sealed_frames_durable hrun⟩

/-- `broadcastGroupOp` hands its frame over at a counter that is not on disk; the process
stops, and the next launch sends a text under the same counter. -/
theorem broadcast_reuses_counter :
    ∃ d : Sender, Sender.Reaches (fun _ _ => True) .fresh d ∧
      (⟨[1], 0, [7]⟩ : Frame) ∈ d.wire ∧ ¬ 0 + 1 ≤ d.stored [1] ∧
      ∃ d' : Sender, Sender.Reaches (fun _ _ => True) d d' ∧
        (⟨[1], 0, [7]⟩ : Frame) ∈ d'.wire ∧ (⟨[1], 0, [8]⟩ : Frame) ∈ d'.wire := by
  refine ⟨_, Sender.reaches_run .fresh
      [.encryptSealed .broadcastGroupOp [1] [7], .advance true, .advance true], by decide, by decide,
    _, Sender.reaches_run _
      [.stop, .encryptSealed .sendV2 [1] [8], .advance true, .advance true, .advance true],
    by decide, by decide⟩

end Pizzini.Delivery
