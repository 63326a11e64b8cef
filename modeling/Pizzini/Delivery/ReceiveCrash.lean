import Mathlib.Data.List.Nodup
import Pizzini.Lib.Fields
import Pizzini.Lib.Runs

/-!
# Receiving a chat message across crashes (`handleSealedFrame`, ChatStore.swift:4353)

A sealed frame is handled in steps: `decryptSealed` consumes its ratchet position in
memory, `persistSession` writes the session, the gates and `handleChatPayload` make a
row, `appendContactMessage` writes the row, `persistSession` again, `emitAck`. The
session and the row are two writes, and a frame whose position is consumed is dropped
as a duplicate, without an ACK. The sender's retry walk and the relay hand over the
same sealed bytes (ChatStore.swift:4755), so what the stored session has consumed is
never decrypted again.

- `Device.step`: one step of the handler, a `persistSession` elsewhere, or a stop;
- `Device.Pending`: the frame is consumed and its row is not written yet;
- `SafeStop`: which stops the two writes survive;
- `Consistent`: the invariant, the stored rows are the consumed chat frames whose
  handling has got past the row.
-/

namespace Pizzini.Delivery

open Wire

/-! ## The receiver -/

/-- What a sealed frame opens to while its ratchet position is unused. -/
structure Opened where
  peer : Bytes
  messageId : Bytes
  plaintext : Bytes

/-- The receiver's surroundings: libsignal's sealed sender, and the contacts and the
block list of the user. -/
structure Receiver where
  opens : Bytes → Option Opened
  contacts : List Bytes
  blocked : List Bytes

/-- `Session.SealedReceived`. -/
structure SealedReceived where
  peer : Bytes
  messageId : Bytes
  plaintext : Bytes
  isDuplicate : Bool

/-- A frame at an unused ratchet position. -/
def Opened.received (o : Opened) : SealedReceived :=
  { peer := o.peer, messageId := o.messageId, plaintext := o.plaintext, isDuplicate := false }

/-- `decryptSealed` on a session that has consumed some frames (`seal_receive`,
store.rs:1020–1090): a consumed frame comes back without its plaintext and leaves the
session alone. -/
def decryptSealed (r : Receiver) (session : List Bytes) (sealed : Bytes) :
    Option (SealedReceived × List Bytes) :=
  (r.opens sealed).map fun o =>
    if sealed ∈ session then
      ({ peer := o.peer, messageId := o.messageId, plaintext := [], isDuplicate := true }, session)
    else (o.received, sealed :: session)

/-- `InnerEnvelopeKind.chat`. -/
def chatKind : UInt8 := 0x01

/-- The row `handleChatPayload` makes (`PersistedMessage`). `origin` is the frame it was
made from; the code has no such column. -/
structure ChatRow where
  origin : Bytes
  peer : Bytes
  text : String
  bytes : Nat
  messageId : Bytes
deriving DecidableEq

/-- `String(data: payload, encoding: .utf8) ?? …`. -/
def chatText (payload : Bytes) : String :=
  (ofUtf8? payload).getD ("<" ++ toString payload.length ++ " non-utf8 bytes>")

/-- The entry of `handleChatPayload` (ChatStore.swift:4496). -/
def chatRow (sealed : Bytes) (peer messageId payload : Bytes) : ChatRow :=
  { origin := sealed, peer := peer, text := chatText payload, bytes := sealed.length,
    messageId := messageId }

/-- Where the handler stands. -/
inductive Phase where
  | idle
  /-- decrypted; next: `persistSession` -/
  | decrypted (sealed : Bytes) (received : SealedReceived)
  /-- after the first `persistSession`; next: the gates and the dispatch -/
  | flushed (sealed : Bytes) (received : SealedReceived)
  /-- the row is in the log; next: `appendContactMessage` -/
  | appended (row : ChatRow)
  /-- next: the `persistSession` of `persistContactSliceAndAppended` -/
  | rowWritten (row : ChatRow)
  /-- next: `emitAck` -/
  | acking (row : ChatRow)

/-- The app's memory, its disk, and the ACKs it has put on the wire. -/
structure Device where
  phase : Phase
  session : List Bytes
  log : List ChatRow
  storedSession : List Bytes
  storedLog : List ChatRow
  acks : List Bytes

/-- A fresh install. -/
def Device.fresh : Device :=
  { phase := .idle, session := [], log := [], storedSession := [], storedLog := [], acks := [] }

/-- `persistSession`: `ok` is whether the write succeeds. -/
def Device.persistSession (d : Device) (ok : Bool) : Device :=
  if ok then { d with storedSession := d.session } else d

/-- The gates and the dispatch of `handleSealedFrame` up to the row in the log. The
other kinds of frames have handlers of their own, which make no chat row. -/
def Device.dispatch (r : Receiver) (d : Device) (sealed : Bytes) (received : SealedReceived) :
    Device :=
  if received.peer ∈ r.blocked then { d with phase := .idle }
  else if received.peer ∉ r.contacts then { d with phase := .idle }
  else if received.isDuplicate then { d with phase := .idle }
  else
    match received.plaintext with
    | kind :: payload =>
      if kind = chatKind then
        let row := chatRow sealed received.peer received.messageId payload
        { d with log := d.log ++ [row], phase := .appended row }
      else { d with phase := .idle }
    | [] => { d with phase := .idle }

/-- What happens to the device. -/
inductive DeviceEvent where
  /-- a relay hands over a frame -/
  | deliver (sealed : Bytes)
  /-- the next step of the handler; `ok` is whether its write succeeds. For `emitAck`,
  `false` also stands for the exits before the write (no token left). -/
  | advance (ok : Bool)
  /-- `persistSession` on another path: between two frames, or in the read receipt and
  the chain serve that come before the row is written -/
  | persist (ok : Bool)
  /-- the process ends and is launched again -/
  | stop

/-- One step. Frames are handled one at a time: a delivery while the handler is busy
does nothing, the relay still has the frame. -/
def Device.step (r : Receiver) (d : Device) : DeviceEvent → Device
  | .deliver sealed =>
    match d.phase with
    | .idle =>
      match decryptSealed r d.session sealed with
      | none => d
      | some (received, session) =>
        { d with session := session, phase := .decrypted sealed received }
    | _ => d
  | .advance ok =>
    match d.phase with
    | .idle => d
    | .decrypted sealed received =>
      { d.persistSession ok with phase := .flushed sealed received }
    | .flushed sealed received => d.dispatch r sealed received
    | .appended row =>
      { d with
        storedLog := if ok then d.storedLog ++ [row] else d.storedLog
        phase := .rowWritten row }
    | .rowWritten row => { d.persistSession ok with phase := .acking row }
    | .acking row =>
      { d.persistSession ok with
        acks := if ok then d.acks ++ [row.messageId] else d.acks
        phase := .idle }
  | .persist ok =>
    match d.phase with
    | .idle => d.persistSession ok
    | .appended _ => d.persistSession ok
    | _ => d
  | .stop => { d with phase := .idle, session := d.storedSession, log := d.storedLog }

/-! ## What a chat frame is owed -/

/-- The row of a chat frame from a paired, unblocked contact. -/
def Receiver.rowOf (r : Receiver) (sealed : Bytes) : Option ChatRow :=
  (r.opens sealed).bind fun o =>
    if o.peer ∈ r.blocked ∨ o.peer ∉ r.contacts then none
    else
      match o.plaintext with
      | kind :: payload =>
        if kind = chatKind then some (chatRow sealed o.peer o.messageId payload) else none
      | [] => none

/-- The frame is consumed and its row is not written yet. -/
def Device.Pending (d : Device) (sealed : Bytes) : Prop :=
  match d.phase with
  | .decrypted s received => s = sealed ∧ received.isDuplicate = false
  | .flushed s received => s = sealed ∧ received.isDuplicate = false
  | .appended row => row.origin = sealed
  | _ => False

/-- The stop finds on disk the consumption of every chat frame consumed since launch,
except one whose row is not written yet. -/
def SafeStop (r : Receiver) (d : Device) : Prop :=
  ∀ sealed ∈ d.session, (r.rowOf sealed).isSome →
    (sealed ∈ d.storedSession ↔ ¬ d.Pending sealed)

/-- The steps a chat message survives: the write of a row does not fail, and the
process stops only where `SafeStop` holds. -/
def SafeStep (r : Receiver) (d : Device) : DeviceEvent → Prop
  | .advance ok => (∃ row, d.phase = .appended row) → ok = true
  | .stop => SafeStop r d
  | _ => True

/-- Runs of the device whose steps meet `ok`. -/
def Device.Reaches (r : Receiver) (ok : Device → DeviceEvent → Prop) : Device → Device → Prop :=
  Runs.Reach (fun d e d' => Device.step r d e = d') ok

/-- The persisted log holds the frame's message, or redeliveries of the same bytes put
it there. -/
def Device.Keeps (r : Receiver) (d : Device) (sealed : Bytes) (row : ChatRow) : Prop :=
  row ∈ d.storedLog ∨
    ∃ d', Device.Reaches r
        (fun _ e => e = .deliver sealed ∨ e = .advance true ∨ e = .persist true) d d' ∧
      row ∈ d'.storedLog

/-! ## The invariant -/

variable {r : Receiver} {d d' : Device} {sealed : Bytes} {row : ChatRow}

theorem rowOf_origin (h : r.rowOf sealed = some row) : row.origin = sealed := by
  obtain ⟨o, -, h⟩ := Option.bind_eq_some_iff.mp h
  split at h
  · cases h
  · split at h
    · split at h
      · cases h
        rfl
      · cases h
    · cases h

/-- What `decryptSealed` gave for a frame that was not consumed. -/
def FreshlyReceived (r : Receiver) (sealed : Bytes) (received : SealedReceived) : Prop :=
  ∃ o, r.opens sealed = some o ∧ received = o.received

/-- What the handler holds fits the frame it handles. -/
def Phase.Fits (r : Receiver) : Phase → Prop
  | .decrypted sealed received => received.isDuplicate = false → FreshlyReceived r sealed received
  | .flushed sealed received => received.isDuplicate = false → FreshlyReceived r sealed received
  | .appended row => r.rowOf row.origin = some row
  | _ => True

/-- The invariant of safe runs: the stored rows are, once each, those of the consumed
chat frames whose handling has got past the row. -/
structure Consistent (r : Receiver) (d : Device) : Prop where
  stored : ∀ sealed ∈ d.storedSession, sealed ∈ d.session
  fits : d.phase.Fits r
  pending : ∀ sealed, d.Pending sealed → sealed ∈ d.session
  rows : ∀ row ∈ d.storedLog, r.rowOf row.origin = some row
  once : (d.storedLog.map ChatRow.origin).Nodup
  logged : ∀ sealed, (r.rowOf sealed).isSome →
    (sealed ∈ d.storedLog.map ChatRow.origin ↔ sealed ∈ d.session ∧ ¬ d.Pending sealed)

theorem Consistent.fresh : Consistent r .fresh where
  stored := nofun
  fits := trivial
  pending := fun _ h => h.elim
  rows := nofun
  once := List.nodup_nil
  logged := by
    intro sealed _
    simp [Device.fresh]

/-- Only the phase, the session and the two stored lists matter. -/
theorem Consistent.congr (h : Consistent r d) (hphase : d'.phase = d.phase)
    (hsession : d'.session = d.session) (hlog : d'.storedLog = d.storedLog)
    (hstored : ∀ sealed ∈ d'.storedSession, sealed ∈ d.session) : Consistent r d' where
  stored := by
    rw [hsession]
    exact hstored
  fits := by
    rw [hphase]
    exact h.fits
  pending := by
    intro sealed hpending
    rw [hsession]
    refine h.pending sealed ?_
    rw [Device.Pending, ← hphase]
    exact hpending
  rows := by
    rw [hlog]
    exact h.rows
  once := by
    rw [hlog]
    exact h.once
  logged := by
    intro sealed hchat
    rw [hlog, hsession, show d'.Pending sealed = d.Pending sealed by
      rw [Device.Pending, Device.Pending, hphase]]
    exact h.logged sealed hchat

theorem Consistent.persistSession (h : Consistent r d) (ok : Bool) :
    Consistent r (d.persistSession ok) := by
  rw [Device.persistSession]
  split
  · exact h.congr rfl rfl rfl fun _ hmem => hmem
  · exact h

/-- A handler that moves on with the same frame pending. -/
theorem Consistent.moves (h : Consistent r d) {phase : Phase} (hfits : phase.Fits r)
    (hpending : ∀ sealed, ({ d with phase := phase } : Device).Pending sealed ↔
      d.Pending sealed) : Consistent r { d with phase := phase } where
  stored := h.stored
  fits := hfits
  pending := fun sealed hmoved => h.pending sealed ((hpending sealed).mp hmoved)
  rows := h.rows
  once := h.once
  logged := by
    intro sealed hchat
    rw [hpending]
    exact h.logged sealed hchat

/-- A handler that ends, with no chat frame pending. -/
theorem Consistent.ends (h : Consistent r d)
    (hnone : ∀ sealed, (r.rowOf sealed).isSome → ¬ d.Pending sealed) :
    Consistent r { d with phase := .idle } where
  stored := h.stored
  fits := trivial
  pending := fun _ hidle => hidle.elim
  rows := h.rows
  once := h.once
  logged := by
    intro sealed hchat
    rw [h.logged sealed hchat]
    exact and_congr_right fun _ => ⟨fun _ hidle => hidle.elim, fun _ => hnone sealed hchat⟩

/-- The delivery of a frame. -/
theorem Consistent.decrypts (h : Consistent r d) (hidle : d.phase = .idle)
    {received : SealedReceived} {session : List Bytes}
    (hdecrypt : decryptSealed r d.session sealed = some (received, session)) :
    Consistent r { d with session := session, phase := .decrypted sealed received } := by
  have hnone : ∀ s, ¬ d.Pending s := by
    intro s
    rw [Device.Pending, hidle]
    exact id
  obtain ⟨o, hopens, heq⟩ := Option.map_eq_some_iff.mp hdecrypt
  split at heq
  · -- consumed before: nothing but the phase changes
    cases heq
    refine h.moves (fun hfresh => by cases hfresh) fun s => ?_
    exact ⟨fun hpending => (nomatch hpending.2), fun hpending => absurd hpending (hnone s)⟩
  · rename_i hnew
    cases heq
    have hpending : ∀ s, ({ d with
        session := sealed :: d.session
        phase := .decrypted sealed o.received } : Device).Pending s ↔ sealed = s :=
      fun s => ⟨fun h => h.1, fun h => ⟨h, rfl⟩⟩
    exact
      { stored := fun s hs => List.mem_cons_of_mem _ (h.stored s hs)
        fits := fun _ => ⟨o, hopens, rfl⟩
        pending := fun s hs => (hpending s).mp hs ▸ List.mem_cons_self
        rows := h.rows
        once := h.once
        logged := by
          intro s hchat
          rw [hpending, List.mem_cons]
          constructor
          · intro hs
            obtain ⟨hmem, -⟩ := (h.logged s hchat).mp hs
            exact ⟨.inr hmem, fun heq => hnew (heq ▸ hmem)⟩
          · rintro ⟨hmem, hne⟩
            rcases hmem with heq | hmem
            · exact absurd heq.symm hne
            · exact (h.logged s hchat).mpr ⟨hmem, hnone s⟩ }

/-- The gates and the dispatch. -/
theorem Consistent.dispatch (h : Consistent r d) {received : SealedReceived}
    (hphase : d.phase = .flushed sealed received) :
    Consistent r (d.dispatch r sealed received) := by
  have hfits := h.fits
  rw [hphase] at hfits
  have hpending : ∀ s, d.Pending s ↔ sealed = s ∧ received.isDuplicate = false := by
    intro s
    rw [Device.Pending, hphase]
  -- the handler may end only on a frame that has no row
  have hends : (received.isDuplicate = false → (r.rowOf sealed).isSome → False) →
      Consistent r { d with phase := .idle } := by
    intro hnorow
    refine h.ends fun s hchat hs => ?_
    obtain ⟨rfl, hfresh⟩ := (hpending s).mp hs
    exact hnorow hfresh hchat
  rw [Device.dispatch]
  split
  · rename_i hblocked
    refine hends fun hfresh hchat => ?_
    obtain ⟨o, hopens, rfl⟩ := hfits hfresh
    rw [Receiver.rowOf, hopens, Option.bind_some, if_pos (.inl hblocked)] at hchat
    cases hchat
  · rename_i hblocked
    split
    · rename_i hunknown
      refine hends fun hfresh hchat => ?_
      obtain ⟨o, hopens, rfl⟩ := hfits hfresh
      rw [Receiver.rowOf, hopens, Option.bind_some, if_pos (.inr hunknown)] at hchat
      cases hchat
    · rename_i hknown
      split
      · rename_i hduplicate
        exact hends fun hfresh _ => by rw [hfresh] at hduplicate; cases hduplicate
      · rename_i hduplicate
        have hfresh := Bool.eq_false_iff.mpr hduplicate
        obtain ⟨o, hopens, rfl⟩ := hfits hfresh
        have hrow : r.rowOf sealed =
            match o.received.plaintext with
            | kind :: payload =>
              if kind = chatKind then some (chatRow sealed o.peer o.messageId payload) else none
            | [] => none := by
          have hgates : ¬ (o.peer ∈ r.blocked ∨ o.peer ∉ r.contacts) :=
            not_or.mpr ⟨hblocked, hknown⟩
          rw [Receiver.rowOf, hopens, Option.bind_some, if_neg hgates]
          rfl
        split
        · rename_i kind payload hplain
          rw [hplain] at hrow
          split
          · rename_i hkind
            have hsome := hrow.trans (if_pos hkind)
            have hlogged : Consistent r
                { d with log := d.log ++ [chatRow sealed o.peer o.messageId payload] } :=
              h.congr rfl rfl rfl h.stored
            refine hlogged.moves hsome fun s => ?_
            exact ⟨fun heq => (hpending s).mpr ⟨heq, rfl⟩, fun hs => ((hpending s).mp hs).1⟩
          · rename_i hkind
            refine hends fun _ hchat => ?_
            rw [hrow.trans (if_neg hkind)] at hchat
            cases hchat
        · rename_i hplain
          refine hends fun _ hchat => ?_
          rw [hplain] at hrow
          rw [hrow] at hchat
          cases hchat

/-- The row is written. -/
theorem Consistent.writesRow (h : Consistent r d) (hphase : d.phase = .appended row) :
    Consistent r { d with storedLog := d.storedLog ++ [row], phase := .rowWritten row } := by
  have hrow := h.fits
  rw [hphase] at hrow
  have hchat : (r.rowOf row.origin).isSome := by
    rw [show r.rowOf row.origin = some row from hrow]
    rfl
  have hpending : ∀ s, d.Pending s ↔ row.origin = s := by
    intro s
    rw [Device.Pending, hphase]
  have hnew : row.origin ∉ d.storedLog.map ChatRow.origin := by
    intro hmem
    exact ((h.logged _ hchat).mp hmem).2 ((hpending _).mpr rfl)
  exact
    { stored := h.stored
      fits := trivial
      pending := fun _ hs => hs.elim
      rows := by
        intro row' hrow'
        rcases List.mem_append.mp hrow' with hrow' | hrow'
        · exact h.rows row' hrow'
        · rw [List.mem_singleton.mp hrow']
          exact hrow
      once := by
        rw [List.map_append, List.map_singleton]
        exact List.nodup_append.mpr ⟨h.once, List.pairwise_singleton _ _, by
          intro a ha b hb heq
          rw [List.mem_singleton.mp hb] at heq
          exact hnew (heq ▸ ha)⟩
      logged := by
        intro s hs
        rw [List.map_append, List.map_singleton, List.mem_append, List.mem_singleton,
          h.logged s hs, hpending]
        constructor
        · rintro (⟨hmem, -⟩ | rfl)
          · exact ⟨hmem, id⟩
          · exact ⟨h.pending _ ((hpending _).mpr rfl), id⟩
        · rintro ⟨hmem, -⟩
          by_cases heq : s = row.origin
          · exact .inr heq
          · exact .inl ⟨hmem, fun heq' => heq heq'.symm⟩ }

/-- A safe stop. -/
theorem Consistent.stops (h : Consistent r d) (hsafe : SafeStop r d) :
    Consistent r { d with phase := .idle, session := d.storedSession, log := d.storedLog } where
  stored := fun _ hs => hs
  fits := trivial
  pending := fun _ hs => hs.elim
  rows := h.rows
  once := h.once
  logged := by
    intro s hchat
    rw [h.logged s hchat]
    constructor
    · rintro ⟨hmem, hnot⟩
      exact ⟨(hsafe s hmem hchat).mpr hnot, id⟩
    · rintro ⟨hmem, -⟩
      have hsession := h.stored s hmem
      exact ⟨hsession, (hsafe s hsession hchat).mp hmem⟩

/-- One safe step keeps the invariant. -/
theorem Consistent.step (h : Consistent r d) {e : DeviceEvent} (hsafe : SafeStep r d e) :
    Consistent r (d.step r e) := by
  cases e with
  | deliver sealed =>
    rw [Device.step]
    split
    · rename_i hidle
      split
      · exact h
      · rename_i hdecrypt
        exact h.decrypts hidle hdecrypt
    · exact h
  | advance ok =>
    have hpersist := h.persistSession ok
    have hphase : (d.persistSession ok).phase = d.phase := by
      rw [Device.persistSession]
      split <;> rfl
    -- the phases after the row have nothing pending
    have hpast : (∀ s, ¬ d.Pending s) → ∀ phase : Phase, phase.Fits r →
        (∀ s, ¬ ({ d.persistSession ok with phase := phase } : Device).Pending s) →
        Consistent r { d.persistSession ok with phase := phase } := by
      intro hnone phase hfits hnone'
      refine hpersist.moves hfits fun s => ⟨fun hs => absurd hs (hnone' s), fun hs => ?_⟩
      rw [Device.Pending, hphase] at hs
      exact absurd hs (hnone s)
    rw [Device.step]
    split
    · exact h
    · rename_i sealed received heq
      refine hpersist.moves ?_ fun s => ?_
      · have hfits := h.fits
        rw [heq] at hfits
        exact hfits
      · rw [Device.Pending, Device.Pending, hphase, heq]
    · rename_i heq
      exact h.dispatch heq
    · rename_i row heq
      obtain rfl : ok = true := hsafe ⟨row, heq⟩
      exact h.writesRow heq
    · rename_i row heq
      refine hpast (fun s hs => ?_) (.acking row) trivial fun s hs => hs.elim
      rw [Device.Pending, heq] at hs
      exact hs
    · rename_i row heq
      have hidle := hpast (fun s hs => by rw [Device.Pending, heq] at hs; exact hs)
        .idle trivial fun s hs => hs.elim
      exact hidle.congr rfl rfl rfl hidle.stored
  | persist ok =>
    rw [Device.step]
    split
    · exact h.persistSession ok
    · exact h.persistSession ok
    · exact h
  | stop => exact h.stops hsafe

/-- A received chat message survives every run whose steps are safe: between frames,
a chat frame that the stored session has consumed has its row in the stored log; and
at no time does the log hold it twice. -/
theorem received_message_kept (hrun : Device.Reaches r (SafeStep r) .fresh d) :
    (d.phase = .idle → ∀ sealed row, r.rowOf sealed = some row → sealed ∈ d.storedSession →
      d.Keeps r sealed row) ∧
    ∀ sealed, (d.storedLog.map ChatRow.origin).count sealed ≤ 1 := by
  have hinv : Consistent r d :=
    Runs.Reach.invariant hrun (Consistent r) (fun h hsafe hstep => hstep ▸ h.step hsafe) .fresh
  refine ⟨fun hidle sealed row hrow hconsumed => .inl ?_,
    fun sealed => List.nodup_iff_count_le_one.mp hinv.once sealed⟩
  have hchat : (r.rowOf sealed).isSome := by
    rw [hrow]
    rfl
  have hnone : ¬ d.Pending sealed := by
    rw [Device.Pending, hidle]
    exact id
  obtain ⟨row', hrow', horigin⟩ :=
    List.mem_map.mp ((hinv.logged sealed hchat).mpr ⟨hinv.stored sealed hconsumed, hnone⟩)
  have hsame := hinv.rows row' hrow'
  rw [horigin, hrow] at hsame
  rw [Option.some.inj hsame]
  exact hrow'

/-! ## What happens outside safe runs -/

/-- The frame is consumed for good, and no row of it is on its way. -/
structure Consumed (sealed : Bytes) (d : Device) : Prop where
  session : sealed ∈ d.session
  stored : sealed ∈ d.storedSession
  log : sealed ∉ d.storedLog.map ChatRow.origin
  pending : ¬ d.Pending sealed

theorem Consumed.persistSession (h : Consumed sealed d) (ok : Bool) :
    Consumed sealed (d.persistSession ok) := by
  rw [Device.persistSession]
  split
  · exact ⟨h.session, h.session, h.log, h.pending⟩
  · exact h

/-- Whatever happens next, redeliveries included, the frame gets no row. -/
theorem Consumed.step (h : Consumed sealed d) (e : DeviceEvent) : Consumed sealed (d.step r e) := by
  cases e with
  | deliver other =>
    rw [Device.step]
    split
    · split
      · exact h
      · rename_i received session hdecrypt
        obtain ⟨o, -, heq⟩ := Option.map_eq_some_iff.mp hdecrypt
        split at heq
        · cases heq
          exact ⟨h.session, h.stored, h.log, fun hpending => nomatch hpending.2⟩
        · rename_i hnew
          cases heq
          refine ⟨List.mem_cons_of_mem _ h.session, h.stored, h.log, fun hpending => hnew ?_⟩
          rw [hpending.1]
          exact h.session
    · exact h
  | advance ok =>
    have hpersist := h.persistSession ok
    have hpending := h.pending
    rw [Device.Pending] at hpending
    rw [Device.step]
    split
    · exact h
    · rename_i s received heq
      rw [heq] at hpending
      exact ⟨hpersist.session, hpersist.stored, hpersist.log, hpending⟩
    · rename_i s received heq
      rw [heq] at hpending
      have hidle : Consumed sealed { d with phase := .idle } :=
        ⟨h.session, h.stored, h.log, id⟩
      rw [Device.dispatch]
      split
      · exact hidle
      · split
        · exact hidle
        · split
          · exact hidle
          · rename_i hfresh
            split
            · split
              · refine ⟨h.session, h.stored, h.log, fun horigin => hpending ⟨horigin, ?_⟩⟩
                exact Bool.eq_false_iff.mpr hfresh
              · exact hidle
            · exact hidle
    · rename_i row heq
      rw [heq] at hpending
      refine ⟨h.session, h.stored, ?_, id⟩
      dsimp only
      split
      · rw [List.map_append, List.mem_append]
        rintro (hmem | hmem)
        · exact h.log hmem
        · exact hpending (List.mem_singleton.mp hmem).symm
      · exact h.log
    · exact ⟨hpersist.session, hpersist.stored, hpersist.log, id⟩
    · exact ⟨hpersist.session, hpersist.stored, hpersist.log, id⟩
  | persist ok =>
    rw [Device.step]
    split
    · exact h.persistSession ok
    · exact h.persistSession ok
    · exact h
  | stop => exact ⟨h.stored, h.stored, h.log, id⟩

/-- A frame that the stored session has consumed without its row is lost. -/
theorem Consumed.not_keeps (h : Consumed sealed d) (hrow : r.rowOf sealed = some row) :
    ¬ d.Keeps r sealed row := by
  have hnot : ∀ d' : Device, Consumed sealed d' → row ∉ d'.storedLog := by
    intro d' h' hmem
    exact h'.log (List.mem_map.mpr ⟨row, hmem, rowOf_origin hrow⟩)
  rintro (hmem | ⟨d', hrun, hmem⟩)
  · exact hnot d h hmem
  · have hkept : Consumed sealed d' :=
      Runs.Reach.invariant hrun (Consumed sealed) (fun h _ hstep => hstep ▸ h.step _) h
    exact hnot d' hkept hmem

/-! ## Runs on a fixed frame -/

/-- The device after a list of events. -/
def Device.run (r : Receiver) (d : Device) (es : List DeviceEvent) : Device :=
  es.foldl (Device.step r) d

/-- Without a condition on the steps, every list of events is a run. -/
theorem Device.reaches_run (d : Device) (es : List DeviceEvent) :
    Device.Reaches r (fun _ _ => True) d (d.run r es) := by
  induction es generalizing d with
  | nil => exact .refl
  | cons e es ih => exact (Runs.Reach.refl.snoc rfl trivial).trans (ih (d.step r e))

/-- A contact's frame with the text "hi". -/
def hiFrame : Bytes := [9]

/-- A receiver with one contact. -/
def sampleReceiver : Receiver where
  opens := fun sealed =>
    if sealed = hiFrame then some { peer := [1], messageId := [5], plaintext := [1, 104, 105] }
    else none
  contacts := [[1]]
  blocked := []

/-- The row of that frame. -/
def hiRow : ChatRow := chatRow hiFrame [1] [5] [104, 105]

theorem rowOf_hiFrame : sampleReceiver.rowOf hiFrame = some hiRow := rfl

/-- The frame is handled to the end, the process stops, and the relay hands the frame
over again: the stored log holds the message once. -/
theorem hiFrame_kept :
    ∃ d : Device, Device.Reaches sampleReceiver (SafeStep sampleReceiver) .fresh d ∧
      d.phase = .idle ∧ hiFrame ∈ d.storedSession ∧ d.Keeps sampleReceiver hiFrame hiRow ∧
      (d.storedLog.map ChatRow.origin).count hiFrame ≤ 1 := by
  let events : List DeviceEvent :=
    [.deliver hiFrame, .advance true, .advance true, .advance true, .advance true, .advance true]
  let before := Device.fresh.run sampleReceiver events
  have hbefore : Device.Reaches sampleReceiver (SafeStep sampleReceiver) .fresh before :=
    ((((((Runs.Reach.refl.snoc (e := .deliver hiFrame) rfl trivial).snoc (e := .advance true) rfl
      (fun _ => rfl)).snoc (e := .advance true) rfl (fun _ => rfl)).snoc (e := .advance true) rfl
      (fun _ => rfl)).snoc (e := .advance true) rfl (fun _ => rfl)).snoc (e := .advance true) rfl
      (fun _ => rfl))
  have hstop : SafeStop sampleReceiver before := by
    intro sealed hmem _
    exact ⟨fun _ => id, fun _ => hmem⟩
  have hrun := (((hbefore.snoc (e := .stop) rfl hstop).snoc (e := .deliver hiFrame) rfl
    trivial).snoc (e := .advance true) rfl (fun _ => rfl)).snoc (e := .advance true) rfl
    (fun _ => rfl)
  obtain ⟨hkeeps, honce⟩ := received_message_kept hrun
  have hconsumed : hiFrame ∈ [hiFrame] := List.mem_cons_self
  exact ⟨_, hrun, rfl, hconsumed, hkeeps rfl hiFrame hiRow rowOf_hiFrame hconsumed, honce hiFrame⟩

/-- A stop between `persistSession` and the row loses the message: no redelivery of the
same bytes brings it back. A failed `persistSession` with a stop after the row doubles
it: the redelivery is decrypted and appended again. -/
theorem stop_between_writes_loses_message :
    (∃ d : Device, Device.Reaches sampleReceiver (fun _ _ => True) .fresh d ∧ d.phase = .idle ∧
      hiFrame ∈ d.storedSession ∧ ¬ d.Keeps sampleReceiver hiFrame hiRow) ∧
    ∃ d : Device, Device.Reaches sampleReceiver (fun _ _ => True) .fresh d ∧
      (d.storedLog.map ChatRow.origin).count hiFrame = 2 := by
  constructor
  · let events : List DeviceEvent := [.deliver hiFrame, .advance true, .stop]
    have hconsumed : Consumed hiFrame (Device.fresh.run sampleReceiver events) :=
      ⟨List.mem_cons_self, List.mem_cons_self, nofun, id⟩
    exact ⟨_, Device.reaches_run .fresh events, rfl, hconsumed.stored,
      hconsumed.not_keeps rowOf_hiFrame⟩
  · let handling : List DeviceEvent :=
      [.deliver hiFrame, .advance false, .advance true, .advance true, .advance false,
        .advance false]
    exact ⟨_, Device.reaches_run .fresh (handling ++ [.stop] ++ handling), by decide⟩

end Pizzini.Delivery
