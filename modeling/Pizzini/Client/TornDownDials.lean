import Pizzini.Lib.Runs
import Pizzini.Client.RelayClient

/-!
# Blocks of an earlier dial

`connectGeneration` is there so that a block of an earlier dial does nothing
once `disconnect`, the deadline or a new `connect` has moved on. Only the
delayed retry looks at it. `Harmless` says of every other block in which states
it does nothing all the same; `harmless_iff` that these are all. In a run in
which every block of an earlier dial is harmless, a dial that was torn down
stays dead (`torn_down_dial_stays_dead`).

- `View`: what a block must leave alone, the state and the connection.
- `Within P Q R c`: the dials that `c` still hears of meet `P`, the dial of its
  connection, if it has one, meets `Q`, and its watchdog is armed only if `R`.
-/

namespace Pizzini.Client

open Wire Runs

/-! ## The view -/

/-- The state with its history, the connection, and how many were opened. -/
structure View where
  state : State
  notified : List State
  connection : Option Connection
  opened : Nat

def View.set (v : View) (new : State) : View :=
  if v.state = new then v else { v with state := new, notified := v.notified ++ [new] }

theorem View.set_eq_iff {v : View} {new : State} : v.set new = v ↔ v.state = new := by
  by_cases hnew : v.state = new
  · rw [View.set, if_pos hnew]
    exact ⟨fun _ => hnew, fun _ => rfl⟩
  · rw [View.set, if_neg hnew]
    exact ⟨fun heq => absurd (congrArg View.state heq).symm hnew, fun heq => absurd heq hnew⟩

theorem View.set_connection (v : View) (new : State) : (v.set new).connection = v.connection := by
  rw [View.set]
  split <;> rfl

theorem View.set_length (v : View) (new : State) :
    v.notified.length ≤ (v.set new).notified.length := by
  rw [View.set]
  split
  · exact Nat.le_refl _
  · simp only [List.length_append]
    omega

/-- Two changes do not cancel out: the delegate hears of both. -/
theorem View.set_set_eq_iff {v : View} {first second : State} :
    (v.set first).set second = v ↔ v.state = first ∧ v.state = second := by
  by_cases hfirst : v.state = first
  · rw [View.set_eq_iff.mpr hfirst, View.set_eq_iff]
    exact ⟨fun hsecond => ⟨hfirst, hsecond⟩, fun h => h.2⟩
  · refine ⟨fun heq => ?_, fun h => absurd h.1 hfirst⟩
    have hlonger : v.notified.length < (v.set first).notified.length := by
      rw [View.set, if_neg hfirst]
      simp
    have hkept := (v.set first).set_length second
    rw [heq] at hkept
    omega

namespace RelayClient

variable (env : DialEnv) (c : RelayClient)

def view : View := ⟨c.state, c.notified, c.connection, c.opened⟩

@[simp] theorem view_setState (new : State) : (c.setState new).view = c.view.set new := by
  rw [setState, View.set]
  show (if c.state = new then c else _).view = if c.state = new then c.view else _
  split <;> rfl

@[simp] theorem view_enqueue (block : Block) : (c.enqueue block).view = c.view := rfl

@[simp] theorem view_dequeue (event : Event) : (c.dequeue event).view = c.view := by
  rw [dequeue]
  split <;> rfl

@[simp] theorem view_sendFrame : c.sendFrame.view = c.view := by
  rw [sendFrame]
  split <;> rfl

@[simp] theorem view_scheduleRead : c.scheduleRead.view = c.view := by
  rw [scheduleRead]
  split <;> rfl

theorem view_dropConnection : c.dropConnection.view = { c.view with connection := none } := by
  rw [dropConnection]
  split
  · rename_i hnone
    rw [view, hnone]
  · rfl

/-! ## What is harmless -/

/-- A SOCKS failure finds no connection to cancel, and the state it sets. -/
def FailsQuietly (reason : String) : Prop :=
  c.connection = none ∧
    c.state = if c.socksRetries < maxSocksRetries then .connecting else .failed reason

/-- A number that is no port, and the state it leads to. -/
def OpensNothing (socksPort : UInt16) : Prop :=
  env.isPort socksPort = false ∧ c.state = .failed s!"Bad Tor proxy port ({socksPort})"

/-- With what a greeting reply fails, if it does. -/
def greetingFailure (conn : Connection) (data : Option Bytes) (error : Option String) :
    Option String :=
  match error, data with
  | some e, _ => some s!"Tor proxy greeting reply: {e}"
  | none, none => some "Tor proxy greeting reply: empty"
  | none, some data =>
    match parseGreetingReply data, connectRequest conn.dial.host conn.dial.port with
    | .error e, _ => some s!"Tor proxy greeting reply: {e.description}"
    | .ok _, .error e => some s!"Tor proxy connect: {e.description}"
    | .ok _, .ok _ => none

/-- The blocks of an earlier dial that the client may run: the retry of an older
generation, a block that only waits for the next callback, and one that finds
the state it sets and nothing to cancel. -/
def Harmless : Event → Prop
  | .stateUpdate _ .ready => True
  | .stateUpdate _ .waiting => c.state = .connecting
  | .stateUpdate _ (.failed e) => c.FailsQuietly s!"Tor proxy: {e}"
  | .stateUpdate _ .cancelled => c.state = .idle
  | .isReady _ alreadyReady => alreadyReady = true ∨ c.state = .connectingToTor 0
  | .pollProgress _ pct => ∀ shown, c.state = .connectingToTor shown → shown = pct
  | .bootstrap _ (.error e) => c.state = .failed s!"Couldn't start Tor: {e}"
  | .bootstrap _ (.ok _) => c.state = .connecting
  | .prepareHiddenService _ _ (.error e) =>
    c.state = .failed s!"Couldn't find this relay through Tor: {e}"
  | .prepareHiddenService _ socksPort (.ok _) => c.OpensNothing env socksPort
  | .greetingSent _ error => ∀ e ∈ error, c.FailsQuietly s!"Tor proxy greeting send: {e}"
  | .greetingReply conn data error => ∀ reason ∈ greetingFailure conn data error,
    c.FailsQuietly reason
  | .connectSent _ error => ∀ e ∈ error, c.FailsQuietly s!"Tor proxy connect send: {e}"
  | .connectReply _ _ _ (some e) _ => c.FailsQuietly s!"Tor proxy connect reply: {e}"
  | .connectReply _ buffer data none signature =>
    match tryParseConnectReply (buffer ++ data.getD []) with
    | .error e => c.FailsQuietly s!"Tor proxy connect reply: {e.description}"
    | .ok (.complete _) => c.state = .connected ∧
      (c.connection = none ∨ signature.any (fun bytes => bytes.length = 64) = true)
    | .ok .incomplete => True
  | .frameSent _ error => ∀ e ∈ error, c.state = .failed e
  | .read _ _ _ (some e) => c.state = .failed e
  | .read _ data isComplete none =>
    (∀ len ∈ (received c.readBuffer data).2, c.state =
      .failed s!"This relay sent a frame larger than Pizzini accepts ({len} bytes).") ∧
      (isComplete = true → c.state = .idle)
  | .retry _ socksPort gen => c.connectGeneration ≠ gen ∨ c.OpensNothing env socksPort
  | _ => True

variable {env c}

theorem view_setState_iff {new : State} : (c.setState new).view = c.view ↔ c.state = new := by
  rw [view_setState]
  exact View.set_eq_iff

theorem view_handleSocksFailure_iff {reason : String} {dial : Dial} {socksPort : UInt16} :
    (c.handleSocksFailure reason dial socksPort).view = c.view ↔ c.FailsQuietly reason := by
  have hretries : c.dropConnection.socksRetries = c.socksRetries := by
    rw [dropConnection]
    split <;> rfl
  have hview : (c.handleSocksFailure reason dial socksPort).view =
      c.dropConnection.view.set
        (if c.socksRetries < maxSocksRetries then .connecting else .failed reason) := by
    rw [handleSocksFailure, hretries]
    split
    · rw [view_enqueue, view_setState]
      rfl
    · rw [view_setState]
  rw [hview, view_dropConnection, FailsQuietly]
  constructor
  · intro heq
    have hnone : c.connection = none := by
      have hconn := congrArg View.connection heq
      rw [View.set_connection] at hconn
      exact hconn.symm
    rw [show { c.view with connection := none } = c.view by rw [view, hnone],
      View.set_eq_iff] at heq
    exact ⟨hnone, heq⟩
  · rintro ⟨hnone, hstate⟩
    rw [show { c.view with connection := none } = c.view by rw [view, hnone]]
    exact View.set_eq_iff.mpr hstate

theorem view_openSocksConnection_iff {dial : Dial} {socksPort : UInt16} :
    (c.openSocksConnection env dial socksPort).view = c.view ↔ c.OpensNothing env socksPort := by
  rw [openSocksConnection, OpensNothing]
  by_cases hport : env.isPort socksPort = true
  · rw [if_neg (by rw [hport]; simp), hport]
    refine ⟨fun heq => ?_, fun h => by cases h.1⟩
    have hopened : c.opened + 1 = c.opened := congrArg View.opened heq
    omega
  · rw [Bool.not_eq_true] at hport
    rw [if_pos (by rw [hport]; rfl), view_setState_iff]
    exact ⟨fun hstate => ⟨hport, hstate⟩, fun h => h.2⟩

/-- Without a signature the delegate hears of a failure. -/
theorem view_sendHello (signature : Option Bytes) : (c.sendHello signature).view =
    if c.connection = none ∨ signature.any (fun bytes => bytes.length = 64) = true then c.view
    else c.view.set (.failed "Couldn't sign in to this relay (identity key unavailable).") := by
  rw [sendHello]
  split
  · rename_i hnone
    rw [if_pos (.inl hnone)]
  · rename_i conn hconn
    by_cases hsigned : signature.any (fun bytes => bytes.length = 64) = true
    · rw [if_pos hsigned, if_pos (.inr hsigned)]
      rfl
    · rw [if_neg hsigned, if_neg (by rw [hconn]; simp only [reduceCtorEq, false_or]; exact hsigned),
        view_setState]

theorem view_didConnect_iff {trailing : Bytes} {signature : Option Bytes} :
    (c.didConnect trailing signature).view = c.view ↔ c.state = .connected ∧
      (c.connection = none ∨ signature.any (fun bytes => bytes.length = 64) = true) := by
  have hsend : ∀ d : RelayClient, (if d.pushToken.isSome then d.sendFrame else d).view = d.view := by
    intro d
    split
    · exact view_sendFrame d
    · rfl
  rw [didConnect, view_scheduleRead, view_setState, hsend, view_sendHello]
  show (if c.connection = none ∨ _ then c.view else c.view.set _).set .connected = c.view ↔ _
  split
  · rename_i hhello
    rw [View.set_eq_iff]
    exact ⟨fun hstate => ⟨hstate, hhello⟩, fun h => h.1⟩
  · rename_i hhello
    rw [View.set_set_eq_iff]
    refine ⟨fun h => ?_, fun h => absurd h.2 hhello⟩
    rw [h.2] at h
    cases h.1

theorem view_didRead_iff {data : Option Bytes} {isComplete : Bool} :
    (c.didRead data isComplete none).view = c.view ↔
      (∀ len ∈ (received c.readBuffer data).2, c.state =
        .failed s!"This relay sent a frame larger than Pizzini accepts ({len} bytes).") ∧
        (isComplete = true → c.state = .idle) := by
  rw [didRead]
  cases hdrained : (received c.readBuffer data).2 with
  | none =>
    have hno : ∀ len ∈ (none : Option Nat), c.state =
        .failed s!"This relay sent a frame larger than Pizzini accepts ({len} bytes)." := by
      intro len hlen
      cases hlen
    cases isComplete with
    | true =>
      simp only [if_true, view_setState]
      show c.view.set .idle = c.view ↔ _
      rw [View.set_eq_iff]
      exact ⟨fun hstate => ⟨hno, fun _ => hstate⟩, fun h => h.2 trivial⟩
    | false =>
      simp only [Bool.false_eq_true, if_false, view_scheduleRead]
      exact ⟨fun _ => ⟨hno, fun h => h.elim⟩, fun _ => rfl⟩
  | some len =>
    simp only [Option.mem_some, forall_eq']
    cases isComplete with
    | true =>
      simp only [if_true, view_setState]
      show (c.view.set _).set .idle = c.view ↔ _
      rw [View.set_set_eq_iff]
      exact ⟨fun h => ⟨h.1, fun _ => h.2⟩, fun h => ⟨h.1, h.2 trivial⟩⟩
    | false =>
      simp only [Bool.false_eq_true, if_false, view_scheduleRead, view_setState]
      show c.view.set _ = c.view ↔ _
      rw [View.set_eq_iff]
      exact ⟨fun hstate => ⟨hstate, fun h => h.elim⟩, fun h => h.1⟩

theorem view_pollProgress_iff {dial : Dial} {pct : Int} :
    (c.pollProgress dial pct).view = c.view ↔
      ∀ shown, c.state = .connectingToTor shown → shown = pct := by
  rw [pollProgress]
  generalize hpolled : (if c.pending.contains (.bootstrap dial) then c.enqueue (.pollProgress dial)
    else c) = polled
  have hview : polled.view = c.view := by
    rw [← hpolled]
    split <;> rfl
  have hstate : polled.state = c.state := congrArg View.state hview
  simp only [← hview, ← hstate]
  cases hshown : polled.state with
  | connectingToTor shown =>
    show (polled.setState _).view = polled.view ↔ _
    rw [view_setState_iff, hshown]
    exact ⟨fun heq other hother => (State.connectingToTor.inj hother).symm.trans
      (State.connectingToTor.inj heq), fun h => by rw [h shown rfl]⟩
  | _ => exact iff_of_true rfl fun shown heq => by cases heq

theorem view_greetingReply_iff {conn : Connection} {data : Option Bytes} {error : Option String} :
    (c.greetingReply conn data error).view = c.view ↔
      ∀ reason ∈ greetingFailure conn data error, c.FailsQuietly reason := by
  cases error with
  | some e =>
    simp only [greetingReply, greetingFailure, view_handleSocksFailure_iff, Option.mem_some,
      forall_eq']
  | none =>
    cases data with
    | none =>
      simp only [greetingReply, greetingFailure, view_handleSocksFailure_iff, Option.mem_some,
        forall_eq']
    | some data =>
      simp only [greetingReply, greetingFailure, sendSocksConnect]
      cases parseGreetingReply data with
      | error e => simp only [view_handleSocksFailure_iff, Option.mem_some, forall_eq']
      | ok method =>
        cases connectRequest conn.dial.host conn.dial.port with
        | error e => simp only [view_handleSocksFailure_iff, Option.mem_some, forall_eq']
        | ok request =>
          simp only [view_enqueue, Option.not_mem_none, false_implies, implies_true]

/-- Whatever is not harmless changes the state, or cancels, replaces or opens a
connection. -/
theorem run_harmless_iff {event : Event} {dial : Dial} (hdial : event.dial = some dial) :
    c.Harmless env event ↔ (c.run env event).view = c.view := by
  symm
  cases event with
  | stateUpdate conn update =>
    cases update with
    | ready => exact ⟨fun _ => trivial, fun _ => rfl⟩
    | waiting => exact view_setState_iff
    | failed e => exact view_handleSocksFailure_iff
    | cancelled => exact view_setState_iff
  | isReady dial alreadyReady =>
    cases alreadyReady with
    | true => exact ⟨fun _ => .inl rfl, fun _ => rfl⟩
    | false =>
      show ((c.setState (.connectingToTor 0)).view = c.view) ↔ _
      rw [view_setState_iff]
      exact ⟨fun hstate => .inr hstate, fun h => h.resolve_left Bool.noConfusion⟩
  | pollProgress dial pct => exact view_pollProgress_iff
  | bootstrap dial result =>
    cases result with
    | error e => exact view_setState_iff
    | ok socksPort => exact view_setState_iff
  | prepareHiddenService dial socksPort result =>
    cases result with
    | error e => exact view_setState_iff
    | ok _ => exact view_openSocksConnection_iff
  | greetingSent conn error =>
    cases error with
    | none => exact iff_of_true rfl fun e he => (Option.not_mem_none e he).elim
    | some e =>
      show (c.handleSocksFailure _ _ _).view = c.view ↔ ∀ e' ∈ some e, _
      simp only [view_handleSocksFailure_iff, Option.mem_some, forall_eq']
  | greetingReply conn data error => exact view_greetingReply_iff
  | connectSent conn error =>
    cases error with
    | none => exact iff_of_true rfl fun e he => (Option.not_mem_none e he).elim
    | some e =>
      show (c.handleSocksFailure _ _ _).view = c.view ↔ ∀ e' ∈ some e, _
      simp only [view_handleSocksFailure_iff, Option.mem_some, forall_eq']
  | connectReply conn buffer data error signature =>
    cases error with
    | some e => exact view_handleSocksFailure_iff
    | none =>
      simp only [run, connectReply, Harmless]
      cases tryParseConnectReply (buffer ++ data.getD []) with
      | error e => exact view_handleSocksFailure_iff
      | ok parsed =>
        cases parsed with
        | complete consumed => exact view_didConnect_iff
        | incomplete => exact iff_of_true rfl trivial
  | frameSent conn error =>
    cases error with
    | none => exact iff_of_true rfl fun e he => (Option.not_mem_none e he).elim
    | some e =>
      show (c.setState (.failed e)).view = c.view ↔ ∀ e' ∈ some e, _
      simp only [view_setState_iff, Option.mem_some, forall_eq']
  | read conn data isComplete error =>
    cases error with
    | some e => exact view_setState_iff
    | none => exact view_didRead_iff
  | retry dial socksPort gen =>
    show (c.retry env dial socksPort gen).view = c.view ↔ _ ∨ _
    rw [retry]
    split
    · rename_i hgen
      rw [view_openSocksConnection_iff]
      exact ⟨fun h => .inr h, fun h => h.resolve_left fun hne => hne hgen⟩
    · rename_i hgen
      exact ⟨fun _ => .inl hgen, fun _ => rfl⟩
  | _ => cases hdial

theorem harmless_dequeue (event : Event) :
    (c.dequeue event).Harmless env event ↔ c.Harmless env event := by
  cases event <;> exact Iff.rfl

theorem harmless_iff {event : Event} {dial : Dial} (hdial : event.dial = some dial) :
    c.Harmless env event ↔ (c.exec env event).view = c.view := by
  rw [← harmless_dequeue, run_harmless_iff hdial, view_dequeue]
  rfl

/-! ## The generation -/

@[simp] theorem connectGeneration_setState (new : State) :
    (c.setState new).connectGeneration = c.connectGeneration := by
  rw [setState]
  split <;> rfl

@[simp] theorem connectGeneration_enqueue (block : Block) :
    (c.enqueue block).connectGeneration = c.connectGeneration := rfl

@[simp] theorem connectGeneration_dequeue (event : Event) :
    (c.dequeue event).connectGeneration = c.connectGeneration := by
  rw [dequeue]
  split <;> rfl

@[simp] theorem connectGeneration_dropConnection :
    c.dropConnection.connectGeneration = c.connectGeneration := by
  rw [dropConnection]
  split <;> rfl

@[simp] theorem connectGeneration_sendFrame :
    c.sendFrame.connectGeneration = c.connectGeneration := by
  rw [sendFrame]
  split <;> rfl

@[simp] theorem connectGeneration_scheduleRead :
    c.scheduleRead.connectGeneration = c.connectGeneration := by
  rw [scheduleRead]
  split <;> rfl

@[simp] theorem connectGeneration_handleSocksFailure (reason : String) (dial : Dial)
    (socksPort : UInt16) :
    (c.handleSocksFailure reason dial socksPort).connectGeneration = c.connectGeneration := by
  rw [handleSocksFailure]
  split <;> simp

@[simp] theorem connectGeneration_openSocksConnection (dial : Dial) (socksPort : UInt16) :
    (c.openSocksConnection env dial socksPort).connectGeneration = c.connectGeneration := by
  rw [openSocksConnection]
  split
  · exact connectGeneration_setState _
  · rfl

@[simp] theorem connectGeneration_didConnect (trailing : Bytes) (signature : Option Bytes) :
    (c.didConnect trailing signature).connectGeneration = c.connectGeneration := by
  have hhello : ∀ d : RelayClient, (d.sendHello signature).connectGeneration =
      d.connectGeneration := by
    intro d
    rw [sendHello]
    split
    · rfl
    · split
      · rfl
      · exact connectGeneration_setState _
  rw [didConnect, connectGeneration_scheduleRead, connectGeneration_setState]
  split
  · rw [connectGeneration_sendFrame, hhello]
  · rw [hhello]

/-- A block runs in the generation that is current, and does not move it. -/
theorem connectGeneration_exec {event : Event} {dial : Dial} (hdial : event.dial = some dial) :
    (c.exec env event).connectGeneration = c.connectGeneration := by
  suffices hrun : ∀ d : RelayClient, (d.run env event).connectGeneration = d.connectGeneration by
    rw [exec, hrun, connectGeneration_dequeue]
  intro d
  cases event with
  | stateUpdate conn update => cases update <;> simp [run, stateUpdate]
  | isReady dial alreadyReady => cases alreadyReady <;> simp [run, isReady]
  | pollProgress dial pct =>
    simp only [run, pollProgress]
    split <;> split <;> simp
  | bootstrap dial result => cases result <;> simp [run, bootstrap]
  | prepareHiddenService dial socksPort result => cases result <;> simp [run, prepareHiddenService]
  | greetingSent conn error => cases error <;> simp [run, greetingSent]
  | greetingReply conn data error =>
    simp only [run]
    rw [greetingReply.eq_def]
    split
    · simp
    · simp
    · split
      · simp
      · rw [sendSocksConnect]
        split <;> simp
  | connectSent conn error => cases error <;> simp [run, connectSent]
  | connectReply conn buffer data error signature =>
    simp only [run, connectReply]
    split
    · simp
    · split <;> simp
  | frameSent conn error => cases error <;> simp [run, didSend]
  | read conn data isComplete error =>
    simp only [run, didRead]
    split
    · simp
    · split <;> split <;> simp
  | retry dial socksPort gen =>
    simp only [run, retry]
    split <;> simp
  | _ => cases hdial

/-! ## The dials a client hears of -/

structure Within (P Q : Dial → Prop) (R : Prop) (c : RelayClient) : Prop where
  pending : ∀ block ∈ c.pending, P block.dial
  handled : ∀ conn ∈ c.handled, P conn.dial
  connection : ∀ conn ∈ c.connection, Q conn.dial
  armed : c.dialDeadlineArmed = true → R

namespace Within

variable {P P' Q Q' : Dial → Prop} {R : Prop} {dial : Dial}

theorem mono (h : Within P Q R c) (hP : ∀ d, P d → P' d) (hQ : ∀ d, Q d → Q' d) :
    Within P' Q' R c :=
  ⟨fun block hblock => hP _ (h.pending block hblock), fun conn hconn => hP _ (h.handled conn hconn),
    fun conn hconn => hQ _ (h.connection conn hconn), h.armed⟩

theorem setState (h : Within P Q R c) (new : State) : Within P Q R (c.setState new) := by
  rw [RelayClient.setState]
  split
  · exact h
  · exact ⟨h.pending, h.handled, h.connection, fun harmed => h.armed (Bool.and_eq_true_iff.mp harmed).1⟩

theorem enqueue (h : Within P Q R c) {block : Block} (hblock : P block.dial) :
    Within P Q R (c.enqueue block) := by
  refine ⟨fun other hother => ?_, h.handled, h.connection, h.armed⟩
  rcases List.mem_append.mp hother with hother | hother
  · exact h.pending other hother
  · rw [List.mem_singleton.mp hother]
    exact hblock

theorem dequeue (h : Within P Q R c) (event : Event) : Within P Q R (c.dequeue event) := by
  rw [RelayClient.dequeue]
  split
  · exact h
  · exact ⟨fun block hblock => h.pending block (List.mem_of_mem_erase hblock), h.handled,
      h.connection, h.armed⟩

theorem dropConnection (h : Within P Q R c) : Within P Q' R c.dropConnection := by
  rw [RelayClient.dropConnection]
  split
  · rename_i hnone
    refine ⟨h.pending, h.handled, fun conn hconn => ?_, h.armed⟩
    rw [hnone] at hconn
    cases hconn
  · exact ⟨h.pending, fun conn hconn => h.handled conn (List.mem_of_mem_filter hconn),
      fun conn hconn => (Option.not_mem_none conn hconn).elim, h.armed⟩

theorem openSocksConnection (h : Within P Q R c) (hP : P dial) (hQ : Q dial) (socksPort : UInt16) :
    Within P Q R (c.openSocksConnection env dial socksPort) := by
  rw [RelayClient.openSocksConnection]
  split
  · exact h.setState _
  · refine ⟨h.pending, fun conn hconn => ?_, fun conn hconn => ?_, h.armed⟩
    · rcases List.mem_append.mp hconn with hconn | hconn
      · exact h.handled conn hconn
      · rw [List.mem_singleton.mp hconn]
        exact hP
    · rw [← Option.some.inj hconn]
      exact hQ

theorem handleSocksFailure (h : Within P Q R c) (hP : P dial) (reason : String)
    (socksPort : UInt16) : Within P Q R (c.handleSocksFailure reason dial socksPort) := by
  have hdropped : Within P Q R c.dropConnection := h.dropConnection
  rw [RelayClient.handleSocksFailure]
  split
  · refine Within.enqueue (Within.setState ?_ _) hP
    exact ⟨hdropped.pending, hdropped.handled, hdropped.connection, hdropped.armed⟩
  · exact hdropped.setState _

/-! The frames and reads of a client go over its connection. -/

variable (hQP : ∀ d, Q d → P d)
include hQP

theorem sendFrame (h : Within P Q R c) : Within P Q R c.sendFrame := by
  rw [RelayClient.sendFrame]
  split
  · exact h
  · rename_i conn hconn
    exact h.enqueue (hQP _ (h.connection conn hconn))

theorem scheduleRead (h : Within P Q R c) : Within P Q R c.scheduleRead := by
  rw [RelayClient.scheduleRead]
  split
  · exact h
  · rename_i conn hconn
    exact h.enqueue (hQP _ (h.connection conn hconn))

theorem didConnect (h : Within P Q R c) (trailing : Bytes) (signature : Option Bytes) :
    Within P Q R (c.didConnect trailing signature) := by
  have hhello : ∀ {d : RelayClient}, Within P Q R d → Within P Q R (d.sendHello signature) := by
    intro d hd
    rw [sendHello]
    split
    · exact hd
    · rename_i conn hconn
      split
      · exact hd.enqueue (hQP _ (hd.connection conn hconn))
      · exact hd.setState _
  have hbuffer : Within P Q R { c with readBuffer := c.readBuffer ++ trailing } :=
    ⟨h.pending, h.handled, h.connection, h.armed⟩
  rw [RelayClient.didConnect]
  refine scheduleRead hQP (Within.setState ?_ _)
  split
  · exact sendFrame hQP (hhello hbuffer)
  · exact hhello hbuffer

theorem didRead (h : Within P Q R c) (data : Option Bytes) (isComplete : Bool)
    (error : Option String) : Within P Q R (c.didRead data isComplete error) := by
  rw [RelayClient.didRead.eq_def]
  split
  · exact h.setState _
  · have hbuffer : Within P Q R
        { c with readBuffer := (received c.readBuffer data).1 } :=
      ⟨h.pending, h.handled, h.connection, h.armed⟩
    dsimp only
    split
    · refine Within.setState ?_ _
      split
      · exact hbuffer.setState _
      · exact hbuffer
    · refine scheduleRead hQP ?_
      split
      · exact hbuffer.setState _
      · exact hbuffer

/-- A block adds blocks and connections of its own dial, and frames and reads of
the connection. -/
theorem exec (h : Within P Q R c) {event : Event} (hdial : event.dial = some dial) (hP : P dial)
    (hQ : Q dial) : Within P Q R (c.exec env event) := by
  rw [RelayClient.exec]
  have hd : Within P Q R (c.dequeue event) := h.dequeue event
  generalize c.dequeue event = d at hd
  cases event with
  | stateUpdate conn update =>
    cases hdial
    cases update with
    | ready => exact hd.enqueue hP
    | waiting => exact hd.setState _
    | failed e => exact hd.handleSocksFailure hP _ _
    | cancelled => exact hd.setState _
  | isReady dial alreadyReady =>
    cases hdial
    cases alreadyReady with
    | true => exact hd.enqueue hP
    | false => refine Within.enqueue (Within.enqueue (hd.setState _) ?_) ?_ <;> exact hP
  | pollProgress dial pct =>
    cases hdial
    have hpolled : Within P Q R (if d.pending.contains (.bootstrap dial) then
        d.enqueue (.pollProgress dial) else d) := by
      split
      · exact hd.enqueue hP
      · exact hd
    simp only [run, pollProgress]
    split
    · exact hpolled.setState _
    · exact hpolled
  | bootstrap dial result =>
    cases hdial
    cases result with
    | error e => exact hd.setState _
    | ok socksPort => exact (hd.setState _).enqueue hP
  | prepareHiddenService dial socksPort result =>
    cases hdial
    cases result with
    | error e => exact hd.setState _
    | ok _ => exact hd.openSocksConnection hP hQ _
  | greetingSent conn error =>
    cases hdial
    cases error with
    | some e => exact hd.handleSocksFailure hP _ _
    | none => exact hd.enqueue hP
  | greetingReply conn data error =>
    cases hdial
    simp only [run]
    rw [greetingReply.eq_def]
    split
    · exact hd.handleSocksFailure hP _ _
    · exact hd.handleSocksFailure hP _ _
    · split
      · exact hd.handleSocksFailure hP _ _
      · rw [sendSocksConnect]
        split
        · exact hd.handleSocksFailure hP _ _
        · exact hd.enqueue hP
  | connectSent conn error =>
    cases hdial
    cases error with
    | some e => exact hd.handleSocksFailure hP _ _
    | none => exact hd.enqueue hP
  | connectReply conn buffer data error signature =>
    cases hdial
    simp only [run, connectReply]
    split
    · exact hd.handleSocksFailure hP _ _
    · split
      · exact hd.handleSocksFailure hP _ _
      · exact didConnect hQP hd _ _
      · exact hd.enqueue hP
  | frameSent conn error =>
    cases error with
    | some e => exact hd.setState _
    | none => exact hd
  | read conn data isComplete error => exact didRead hQP hd _ _ _
  | retry dial socksPort gen =>
    cases hdial
    simp only [run, retry]
    split
    · exact hd.openSocksConnection hP hQ _
    · exact hd
  | _ => cases hdial

end Within

/-! ## Runs -/

/-- An event of a dial that is not the current one. -/
def IsStale (c : RelayClient) (event : Event) : Prop :=
  ∃ dial, event.dial = some dial ∧ dial.generation ≠ c.connectGeneration

/-- Blocks of an earlier dial run only where they are harmless. -/
def Permitted (env : DialEnv) (c : RelayClient) (event : Event) : Prop :=
  c.IsStale event → c.Harmless env event

/-- The two ways in which a dial is torn down for good. -/
def TearsDown (c : RelayClient) (event : Event) : Prop :=
  event = .disconnect ∨ event = .dialDeadline ∧ c.state.isDialing = true

def NoConnect : Event → Prop
  | .connect _ _ => False
  | _ => True

/-- Nothing is heard of later dials, and the connection is of the current one. -/
def Current (c : RelayClient) : Prop :=
  Within (·.generation ≤ c.connectGeneration) (·.generation = c.connectGeneration) True c

/-- No connection, no watchdog, and only earlier dials are heard of. -/
def Torn (c : RelayClient) : Prop :=
  Within (·.generation < c.connectGeneration) (fun _ => False) False c

theorem Torn.current {c : RelayClient} (h : Torn c) : Current c :=
  ⟨fun block hblock => Nat.le_of_lt (h.pending block hblock),
    fun conn hconn => Nat.le_of_lt (h.handled conn hconn),
    fun conn hconn => (h.connection conn hconn).elim, fun _ => trivial⟩

theorem Torn.none {c : RelayClient} (h : Torn c) : c.connection = none := by
  cases hconn : c.connection with
  | none => rfl
  | some conn => exact (h.connection conn hconn).elim

/-- The dial of an event that can happen is one the client hears of. -/
theorem Within.dial_of_enabled {P Q : Dial → Prop} {R : Prop} (h : Within P Q R c) {event : Event} {dial : Dial}
    (henabled : c.Enabled event) (hdial : event.dial = some dial) : P dial := by
  have hblock : ∀ block, event.block = some block → event.dial = some block.dial → P dial := by
    intro block heq hblockDial
    have hmem : block ∈ c.pending := by
      cases event <;> first | exact henabled block heq | cases heq
    rw [hdial] at hblockDial
    rw [Option.some.inj hblockDial]
    exact h.pending block hmem
  cases event with
  | stateUpdate conn update =>
    cases hdial
    exact h.handled conn henabled
  | connect host port => cases hdial
  | disconnect => cases hdial
  | dialDeadline => cases hdial
  | sendFrame => cases hdial
  | registerPush token => cases hdial
  | deregisterPush => cases hdial
  | _ => exact hblock _ rfl rfl

theorem Within.disconnect {P Q Q' : Dial → Prop} {R R' : Prop} (h : Within P Q R c) :
    Within P Q' R' c.disconnect :=
  have hdropped : Within P Q' R c.dropConnection := h.dropConnection
  ⟨hdropped.pending, hdropped.handled, hdropped.connection, fun harmed => by cases harmed⟩

theorem connectGeneration_disconnect : c.disconnect.connectGeneration = c.connectGeneration + 1 := by
  show c.dropConnection.connectGeneration + 1 = _
  rw [connectGeneration_dropConnection]

theorem connectGeneration_connect {host : List Char} {port : UInt16} :
    (c.connect env host port).connectGeneration = c.connectGeneration + 1 := by
  have hstarted : (c.disconnect.setState .connecting).connectGeneration = c.connectGeneration + 1 := by
    rw [connectGeneration_setState, connectGeneration_disconnect]
  rw [connect]
  split
  · rw [connectGeneration_setState]
    exact hstarted
  · split
    · exact hstarted
    · rw [connectGeneration_setState]
      exact hstarted

/-- Tearing down leaves only earlier dials. -/
theorem torn_disconnect (h : Current c) : Torn c.disconnect := by
  have hdropped : Within (·.generation ≤ c.connectGeneration) (fun _ => False) True
      c.dropConnection := Within.dropConnection h
  have hlt : ∀ {dial : Dial}, dial.generation ≤ c.connectGeneration →
      dial.generation < c.disconnect.connectGeneration := by
    intro dial hle
    rw [connectGeneration_disconnect]
    omega
  exact ⟨fun block hblock => hlt (hdropped.pending block hblock),
    fun conn hconn => hlt (hdropped.handled conn hconn), hdropped.connection,
    fun harmed => by cases harmed⟩

theorem torn_dialDeadline (h : Current c) (hdialing : c.state.isDialing = true) :
    Torn c.dialDeadline := by
  have hdropped : Within (·.generation ≤ c.connectGeneration) (fun _ => False) True
      c.dropConnection := Within.dropConnection h
  have hstate : c.dropConnection.state = c.state := congrArg View.state (view_dropConnection c)
  have hlt : ∀ {dial : Dial}, dial.generation ≤ c.connectGeneration →
      dial.generation < c.dialDeadline.connectGeneration := by
    intro dial hle
    rw [dialDeadline, if_pos hdialing, connectGeneration_setState]
    show _ < c.dropConnection.connectGeneration + 1
    rw [connectGeneration_dropConnection]
    omega
  have hbumped : Within (·.generation < c.dialDeadline.connectGeneration) (fun _ => False) True
      { c.dropConnection with connectGeneration := c.dropConnection.connectGeneration + 1 } :=
    ⟨fun block hblock => hlt (hdropped.pending block hblock),
      fun conn hconn => hlt (hdropped.handled conn hconn), hdropped.connection, fun _ => trivial⟩
  rw [Torn]
  generalize c.dialDeadline.connectGeneration = g at hbumped
  rw [dialDeadline, if_pos hdialing]
  have hfailed := hbumped.setState
    (.failed s!"Couldn't reach this relay within {dialBudget}s — network might be blocking Tor.")
  refine ⟨hfailed.pending, hfailed.handled, hfailed.connection, fun harmed => ?_⟩
  rw [setState] at harmed
  split at harmed
  · rename_i hsame
    -- a dial in flight has not failed
    rw [show c.state = _ from hstate.symm.trans hsame] at hdialing
    cases hdialing
  · rw [Bool.and_eq_true] at harmed
    cases harmed.2

theorem current_connect {host : List Char} {port : UInt16} (h : Current c) :
    Current (c.connect env host port) := by
  have hstarted : Within (·.generation ≤ c.connectGeneration + 1)
      (·.generation = c.connectGeneration + 1) True (c.disconnect.setState .connecting) :=
    ((Within.disconnect h).mono (fun dial hle => Nat.le_succ_of_le hle) fun _ heq => heq).setState _
  have hreset : Within (·.generation ≤ c.connectGeneration + 1)
      (·.generation = c.connectGeneration + 1) True
      { c.disconnect.setState .connecting with socksRetries := 0 } :=
    ⟨hstarted.pending, hstarted.handled, hstarted.connection, hstarted.armed⟩
  rw [Current, connectGeneration_connect, connect]
  split
  · exact hreset.setState _
  · split
    · refine Within.enqueue ⟨hreset.pending, hreset.handled, hreset.connection, fun _ => trivial⟩ ?_
      show (c.disconnect.setState .connecting).connectGeneration ≤ _
      refine Nat.le_of_eq ?_
      rw [connectGeneration_setState, connectGeneration_disconnect]
    · exact hreset.setState _

/-- The calls that send a frame. -/
def IsSend (event : Event) : Prop :=
  event = .sendFrame ∨ (∃ token, event = .registerPush token) ∨ event = .deregisterPush

theorem event_kinds (event : Event) : (∃ dial, event.dial = some dial) ∨
    (∃ host port, event = .connect host port) ∨ event = .disconnect ∨ event = .dialDeadline ∨
      IsSend event := by
  cases event with
  | connect host port => exact .inr (.inl ⟨host, port, rfl⟩)
  | disconnect => exact .inr (.inr (.inl rfl))
  | dialDeadline => exact .inr (.inr (.inr (.inl rfl)))
  | sendFrame => exact .inr (.inr (.inr (.inr (.inl rfl))))
  | registerPush token => exact .inr (.inr (.inr (.inr (.inr (.inl ⟨token, rfl⟩)))))
  | deregisterPush => exact .inr (.inr (.inr (.inr (.inr (.inr rfl)))))
  | _ => exact .inl ⟨_, rfl⟩

/-- They set the push token, or leave it, and may write to the connection. -/
theorem exec_send {event : Event} (hsend : IsSend event) : ∃ token,
    c.exec env event = { c with pushToken := token } ∨
      c.exec env event = { c with pushToken := token }.sendFrame := by
  rcases hsend with rfl | ⟨token, rfl⟩ | rfl
  · exact ⟨c.pushToken, .inr rfl⟩
  · refine ⟨some token, ?_⟩
    show c.registerPush token = _ ∨ c.registerPush token = _
    rw [registerPush]
    split
    · exact .inr rfl
    · exact .inl rfl
  · refine ⟨none, ?_⟩
    show c.deregisterPush = _ ∨ c.deregisterPush = _
    rw [deregisterPush]
    split
    · exact .inr rfl
    · exact .inl rfl

theorem Within.exec_send {P Q : Dial → Prop} {R : Prop} (hQP : ∀ d, Q d → P d)
    (h : Within P Q R c) {event : Event} (hsend : IsSend event) :
    Within P Q R (c.exec env event) := by
  obtain ⟨token, heq⟩ := @RelayClient.exec_send env c event hsend
  have hpush : Within P Q R { c with pushToken := token } :=
    ⟨h.pending, h.handled, h.connection, h.armed⟩
  rcases heq with heq | heq
  · rw [heq]
    exact hpush
  · rw [heq]
    exact hpush.sendFrame hQP

theorem exec_send_fields {event : Event} (hsend : IsSend event) :
    (c.exec env event).connectGeneration = c.connectGeneration ∧
      (c.exec env event).view = c.view := by
  obtain ⟨token, heq | heq⟩ := @RelayClient.exec_send env c event hsend
  · rw [heq]
    exact ⟨rfl, rfl⟩
  · rw [heq, connectGeneration_sendFrame, view_sendFrame]
    exact ⟨rfl, rfl⟩

/-- A block of the current dial may do what it likes; a permitted block of an
earlier one leaves the connection alone. -/
theorem Current.exec (h : Current c) {event : Event} (henabled : c.Enabled event)
    (hpermitted : Permitted env c event) : Current (c.exec env event) := by
  rcases event_kinds event with ⟨dial, hdial⟩ | ⟨host, port, rfl⟩ | rfl | rfl | hsend
  · have hle : dial.generation ≤ c.connectGeneration := Within.dial_of_enabled h henabled hdial
    rw [Current, connectGeneration_exec hdial]
    by_cases hstale : dial.generation = c.connectGeneration
    · exact Within.exec (fun d hd => Nat.le_of_eq hd) h hdial hle hstale
    · have hview : (c.exec env event).view = c.view :=
        (harmless_iff hdial).mp (hpermitted ⟨dial, hdial, hstale⟩)
      have hheard : Within (·.generation ≤ c.connectGeneration)
          (·.generation ≤ c.connectGeneration) True (c.exec env event) :=
        Within.exec (fun _ hd => hd) (Within.mono h (fun _ hd => hd) fun d hd => Nat.le_of_eq hd)
          hdial hle hle
      refine ⟨hheard.pending, hheard.handled, fun conn hconn => ?_, hheard.armed⟩
      rw [show (c.exec env event).connection = c.connection from
        congrArg View.connection hview] at hconn
      exact Within.connection h conn hconn
  · exact current_connect h
  · exact (torn_disconnect h).current
  · by_cases hdialing : c.state.isDialing = true
    · exact (torn_dialDeadline h hdialing).current
    · show Current c.dialDeadline
      rw [dialDeadline, if_neg hdialing]
      exact h
  · rw [Current, (exec_send_fields hsend).1]
    exact Within.exec_send (fun d hd => Nat.le_of_eq hd) h hsend

/-- Only a new `connect` brings a torn-down client back. -/
theorem Torn.exec (h : Torn c) {event : Event} (henabled : c.Enabled event)
    (hpermitted : Permitted env c event) (hno : NoConnect event) :
    Torn (c.exec env event) ∧ (c.exec env event).view = c.view := by
  rcases event_kinds event with ⟨dial, hdial⟩ | ⟨host, port, rfl⟩ | rfl | rfl | hsend
  · have hlt : dial.generation < c.connectGeneration := Within.dial_of_enabled h henabled hdial
    have hview : (c.exec env event).view = c.view :=
      (harmless_iff hdial).mp (hpermitted ⟨dial, hdial, Nat.ne_of_lt hlt⟩)
    have hheard : Within (·.generation < c.connectGeneration)
        (·.generation < c.connectGeneration) False (c.exec env event) :=
      Within.exec (fun _ hd => hd) (Within.mono h (fun _ hd => hd) fun d hd => hd.elim)
        hdial hlt hlt
    refine ⟨?_, hview⟩
    rw [Torn, connectGeneration_exec hdial]
    refine ⟨hheard.pending, hheard.handled, fun conn hconn => ?_, hheard.armed⟩
    rw [show (c.exec env event).connection = c.connection from congrArg View.connection hview,
      h.none] at hconn
    cases hconn
  · exact hno.elim
  · refine ⟨torn_disconnect h.current, ?_⟩
    show c.dropConnection.view = c.view
    rw [view_dropConnection, ← h.none]
    rfl
  · exact (Within.armed h henabled).elim
  · rw [Torn, (exec_send_fields hsend).1]
    exact ⟨Within.exec_send (fun _ hfalse => hfalse.elim) h hsend, (exec_send_fields hsend).2⟩

theorem current_of_run {c : RelayClient} (hrun : Reach (Step env) (Permitted env) fresh c) :
    Current c := by
  refine hrun.invariant Current (fun hcurrent hpermitted hstep => ?_) ?_
  · rw [hstep.2]
    exact hcurrent.exec hstep.1 hpermitted
  · exact ⟨fun _ hblock => (List.not_mem_nil hblock).elim, fun _ hconn => (List.not_mem_nil hconn).elim,
      fun conn hconn => (Option.not_mem_none conn hconn).elim, fun _ => trivial⟩

/-- In a run whose blocks of earlier dials are harmless: in the state reached,
just the harmless ones of them leave state and connection alone; the connection
is of the current dial; and from a teardown on, until the next `connect`, there
is no connection and no change of state. -/
theorem torn_down_dial_stays_dead {c : RelayClient}
    (hrun : Reach (Step env) (Permitted env) fresh c) :
    (∀ event, c.IsStale event → (c.Harmless env event ↔ (c.exec env event).view = c.view)) ∧
      (∀ conn ∈ c.connection, conn.dial.generation = c.connectGeneration) ∧
      ∀ event down c', c.TearsDown event → Step env c event down →
        Reach (Step env) (fun c event => Permitted env c event ∧ NoConnect event) down c' →
        c'.view = down.view ∧ c'.connection = none := by
  have hcurrent : Current c := current_of_run hrun
  refine ⟨fun event hstale => ?_, hcurrent.connection, fun event down c' htears hstep hafter => ?_⟩
  · obtain ⟨dial, hdial, -⟩ := hstale
    exact harmless_iff hdial
  · have htorn : Torn down := by
      rw [hstep.2]
      rcases htears with rfl | ⟨rfl, hdialing⟩
      · exact torn_disconnect hcurrent
      · exact torn_dialDeadline hcurrent hdialing
    have hdead : Torn c' ∧ c'.view = down.view := by
      refine hafter.invariant (fun c' => Torn c' ∧ c'.view = down.view)
        (fun hinv hok hnext => ?_) ⟨htorn, rfl⟩
      have hkept := hinv.1.exec hnext.1 hok.1 hok.2
      rw [← hnext.2] at hkept
      exact ⟨hkept.1, hkept.2.trans hinv.2⟩
    exact ⟨hdead.2, hdead.1.none⟩

/-! ## A dial that comes back -/

def sampleDialEnv : DialEnv := ⟨⟨fun _ => true, id⟩, fun port => port ≠ 0⟩

def sampleHost : List Char := List.replicate 56 'a' ++ ".onion".toList

def sampleDial : Dial := ⟨1, sampleHost, 7777⟩

/-- A dial whose Tor is up, and the same once Tor has a proxy port. -/
def booting : RelayClient :=
  (fresh.exec sampleDialEnv (.connect sampleHost 7777)).exec sampleDialEnv (.isReady sampleDial true)

def preparing : RelayClient := booting.exec sampleDialEnv (.bootstrap sampleDial (.ok 9050))

theorem reach_booting {ok : RelayClient → Event → Prop}
    (hconnect : ok fresh (.connect sampleHost 7777))
    (hready : ok (fresh.exec sampleDialEnv (.connect sampleHost 7777)) (.isReady sampleDial true)) :
    Reach (Step sampleDialEnv) ok fresh booting := by
  have hstart : fresh.Enabled (.connect sampleHost 7777) := by
    intro block hblock
    cases hblock
  refine (Reach.refl.snoc ⟨hstart, rfl⟩ hconnect).snoc ⟨?_, rfl⟩ hready
  intro block hblock
  cases hblock
  decide +kernel

/-- A bootstrap that ends after `disconnect` finds the client still in
`.connecting`. -/
theorem torn_down_dial_stays_dead_after_bootstrap :
    ((booting.exec sampleDialEnv .disconnect).exec sampleDialEnv
      (.bootstrap sampleDial (.ok 9050))).connection = none := by
  have hrun : Reach (Step sampleDialEnv) (Permitted sampleDialEnv) fresh booting := by
    refine reach_booting (fun ⟨_, hdial, _⟩ => by cases hdial) fun ⟨dial, hdial, hne⟩ => ?_
    cases hdial
    exact absurd (by decide +kernel) hne
  have hdown : booting.Enabled .disconnect := by
    intro block hblock
    cases hblock
  have hlate : (booting.exec sampleDialEnv .disconnect).Enabled (.bootstrap sampleDial (.ok 9050)) := by
    intro block hblock
    cases hblock
    decide +kernel
  have hharmless : (booting.exec sampleDialEnv .disconnect).Harmless sampleDialEnv
      (.bootstrap sampleDial (.ok 9050)) := by
    show (booting.exec sampleDialEnv .disconnect).state = .connecting
    decide +kernel
  have hpermitted : Permitted sampleDialEnv (booting.exec sampleDialEnv .disconnect)
      (.bootstrap sampleDial (.ok 9050)) := fun _ => hharmless
  exact ((torn_down_dial_stays_dead hrun).2.2 .disconnect _ _ (.inl rfl) ⟨hdown, rfl⟩
    (Reach.refl.snoc ⟨hlate, rfl⟩ ⟨hpermitted, trivial⟩)).2

/-- A hidden-service preparation that ends after `disconnect` opens a connection. -/
theorem torn_down_dial_resurrected :
    Reach (Step sampleDialEnv) (fun _ _ => True) fresh (preparing.exec sampleDialEnv .disconnect) ∧
      (preparing.exec sampleDialEnv .disconnect).connection = none ∧
      (preparing.exec sampleDialEnv .disconnect).IsStale
        (.prepareHiddenService sampleDial 9050 (.ok ())) ∧
      (preparing.exec sampleDialEnv .disconnect).Enabled
        (.prepareHiddenService sampleDial 9050 (.ok ())) ∧
      ((preparing.exec sampleDialEnv .disconnect).exec sampleDialEnv
        (.prepareHiddenService sampleDial 9050 (.ok ()))).connection =
          some ⟨0, sampleDial, 9050⟩ := by
  have hboot : booting.Enabled (.bootstrap sampleDial (.ok 9050)) := by
    intro block hblock
    cases hblock
    decide +kernel
  have hdown : preparing.Enabled .disconnect := by
    intro block hblock
    cases hblock
  refine ⟨((reach_booting trivial trivial).snoc ⟨hboot, rfl⟩ trivial).snoc ⟨hdown, rfl⟩ trivial,
    by decide +kernel, ⟨sampleDial, rfl, by decide +kernel⟩, ?_, by decide +kernel⟩
  intro block hblock
  cases hblock
  decide +kernel

end RelayClient

end Pizzini.Client
