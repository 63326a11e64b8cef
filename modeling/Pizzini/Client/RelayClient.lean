import Pizzini.Client.Socks5

/-!
# The serial queue of `RelayClient`

The dial of `RelayClient.swift`: `connect`, `disconnect`, the dial deadline and
the blocks that a dial leaves behind for later. A `Block` is a continuation
that waits for something outside the queue: the Task of a dial for Tor, the
callbacks of a connection for the network, a retry for its delay. The client
holds the blocks that are under way, and an `Event` runs one of them with what
it waited for. A dial is known by the `connectGeneration` at its `connect`.

A cancelled connection delivers its outstanding callbacks, usually with an
error; its `stateUpdateHandler` is heard only while it is set.
-/

namespace Pizzini.Client

open Wire

/-! ## State (RelayClient.swift:95–107, 303–354, 360–437) -/

inductive State where
  | idle
  | connectingToTor (progress : Int)
  | connecting
  | connected
  | failed (reason : String)
  deriving DecidableEq, Repr

/-- The phases in which a dial is in flight. -/
def State.isDialing : State → Bool
  | .connecting | .connectingToTor _ => true
  | .connected | .failed _ | .idle => false

/-- The arguments that a dial's closures capture. -/
structure Dial where
  generation : Nat
  host : List Char
  port : UInt16
  deriving DecidableEq, Repr

/-- An `NWConnection` to the Tor proxy, and the dial that opened it. -/
structure Connection where
  serial : Nat
  dial : Dial
  socksPort : UInt16
  deriving DecidableEq, Repr

/-- A continuation under way. -/
inductive Block where
  | isReady (dial : Dial)
  | pollProgress (dial : Dial)
  | bootstrap (dial : Dial)
  | prepareHiddenService (dial : Dial) (socksPort : UInt16)
  | greetingSent (conn : Connection)
  | greetingReply (conn : Connection)
  | connectSent (conn : Connection)
  | connectReply (conn : Connection) (buffer : Bytes)
  | frameSent (conn : Connection)
  | read (conn : Connection)
  | retry (dial : Dial) (socksPort : UInt16) (gen : Nat)
  deriving DecidableEq, Repr

/-- The dial that started a block. -/
def Block.dial : Block → Dial
  | .isReady dial | .pollProgress dial | .bootstrap dial => dial
  | .prepareHiddenService dial _ | .retry dial _ _ => dial
  | .greetingSent conn | .greetingReply conn | .connectSent conn => conn.dial
  | .connectReply conn _ | .frameSent conn | .read conn => conn.dial

/-- The fields of the client, the states its delegate was told of, the number
of connections it opened, the connections whose handler is set, and the blocks
under way. -/
structure RelayClient where
  state : State
  notified : List State
  connection : Option Connection
  opened : Nat
  handled : List Connection
  readBuffer : Bytes
  socksRetries : Nat
  connectGeneration : Nat
  dialDeadlineArmed : Bool
  pushToken : Option Bytes
  pending : List Block
  deriving DecidableEq, Repr

/-- What the client takes from outside: the Unicode tables, and which numbers
`NWEndpoint.Port` accepts. -/
structure DialEnv where
  tables : HostTables
  isPort : UInt16 → Bool

def maxSocksRetries : Nat := 4

/-- In seconds. -/
def dialBudget : Nat := 7 * 60

def maxFrameBytes : Nat := 1024 * 1024

namespace RelayClient

variable (env : DialEnv) (c : RelayClient)

/-- `state = new`, with its `didSet`. -/
def setState (new : State) : RelayClient :=
  if c.state = new then c
  else
    { c with
      state := new
      notified := c.notified ++ [new]
      dialDeadlineArmed := c.dialDeadlineArmed && new.isDialing }

def enqueue (block : Block) : RelayClient := { c with pending := c.pending ++ [block] }

/-- Detach the handler, cancel the connection, and let go of it. -/
def dropConnection : RelayClient :=
  match c.connection with
  | none => c
  | some conn => { c with connection := none, handled := c.handled.filter (· ≠ conn) }

/-! ## Connect and disconnect (RelayClient.swift:447–475, 896–921, 1224–1264) -/

/-- `disconnect`. -/
def disconnect : RelayClient :=
  let c := c.dropConnection
  { c with
    readBuffer := []
    connectGeneration := c.connectGeneration + 1
    dialDeadlineArmed := false }

/-- `connect`. -/
def connect (host : List Char) (port : UInt16) : RelayClient :=
  let c := c.disconnect.setState .connecting
  let c := { c with socksRetries := 0 }
  if !env.isPort port then c.setState (.failed s!"Bad relay port ({port})")
  else match env.tables.canonical host with
    | some canonical =>
      { c with dialDeadlineArmed := true }.enqueue (.isReady ⟨c.connectGeneration, canonical, port⟩)
    | none => c.setState (.failed "This relay isn't a Tor address.")

/-- The handler of `armDialDeadline`'s timer. -/
def dialDeadline : RelayClient :=
  if c.state.isDialing then
    let c := c.dropConnection
    { c with connectGeneration := c.connectGeneration + 1 }.setState
      (.failed s!"Couldn't reach this relay within {dialBudget}s — network might be blocking Tor.")
  else c

/-! ## Frames (RelayClient.swift:1052–1158, 1266–1308) -/

/-- `writeFrame`: the frame goes out, and its completion is awaited. -/
def writeFrame (conn : Connection) : RelayClient := c.enqueue (.frameSent conn)

/-- A public call that sends one frame. -/
def sendFrame : RelayClient :=
  match c.connection with
  | none => c
  | some conn => c.writeFrame conn

/-- `registerPush`. -/
def registerPush (token : Bytes) : RelayClient :=
  let c := { c with pushToken := some token }
  if c.state = .connected then c.sendFrame else c

/-- `deregisterPush`. -/
def deregisterPush : RelayClient :=
  let c := { c with pushToken := none }
  if c.state = .connected then c.sendFrame else c

/-- `sendHello`, with what the signer answered. -/
def sendHello (signature : Option Bytes) : RelayClient :=
  match c.connection with
  | none => c
  | some conn =>
    if signature.any fun bytes => bytes.length = 64 then c.writeFrame conn
    else c.setState (.failed "Couldn't sign in to this relay (identity key unavailable).")

/-- `scheduleRead`. -/
def scheduleRead : RelayClient :=
  match c.connection with
  | none => c
  | some conn => c.enqueue (.read conn)

/-- `drainFrames`: what stays in the buffer once whole frames are handed over,
and the length of a frame that is too large. `handleFrame` reports to the
delegate and touches nothing here. -/
def drainFrames (readBuffer : Bytes) : Bytes × Option Nat :=
  if readBuffer.length < 4 then (readBuffer, none)
  else
    let len := beNat (readBuffer.take 4)
    if len > maxFrameBytes then (readBuffer, some len)
    else if readBuffer.length < 4 + len then (readBuffer, none)
    else drainFrames (readBuffer.drop (4 + len))
termination_by readBuffer.length
decreasing_by rw [List.length_drop]; omega

/-- `readBuffer` with what was received. Only bytes that arrive set off `drainFrames`. -/
def received (readBuffer : Bytes) : Option Bytes → Bytes × Option Nat
  | none | some [] => (readBuffer, none)
  | some data => drainFrames (readBuffer ++ data)

/-- The completion of `scheduleRead`. -/
def didRead (data : Option Bytes) (isComplete : Bool) (error : Option String) : RelayClient :=
  match error with
  | some e => c.setState (.failed e)
  | none =>
    let drained := received c.readBuffer data
    let c := { c with readBuffer := drained.1 }
    let c := match drained.2 with
      | some len =>
        c.setState (.failed s!"This relay sent a frame larger than Pizzini accepts ({len} bytes).")
      | none => c
    if isComplete then c.setState .idle else c.scheduleRead

/-- The completion of `writeFrame`. -/
def didSend (error : Option String) : RelayClient :=
  match error with
  | some e => c.setState (.failed e)
  | none => c

/-! ## SOCKS (RelayClient.swift:629–895) -/

/-- `openSocksConnection`. -/
def openSocksConnection (dial : Dial) (socksPort : UInt16) : RelayClient :=
  if !env.isPort socksPort then c.setState (.failed s!"Bad Tor proxy port ({socksPort})")
  else
    let conn : Connection := ⟨c.opened, dial, socksPort⟩
    { c with connection := some conn, opened := c.opened + 1, handled := c.handled ++ [conn] }

/-- `handleSocksFailure`. -/
def handleSocksFailure (reason : String) (dial : Dial) (socksPort : UInt16) : RelayClient :=
  let c := c.dropConnection
  if c.socksRetries < maxSocksRetries then
    let c := { c with socksRetries := c.socksRetries + 1 }.setState .connecting
    c.enqueue (.retry dial socksPort c.connectGeneration)
  else c.setState (.failed reason)

/-- The delayed block of `handleSocksFailure`. -/
def retry (dial : Dial) (socksPort : UInt16) (gen : Nat) : RelayClient :=
  if c.connectGeneration = gen then c.openSocksConnection env dial socksPort else c

/-- What an `NWConnection` reports to its handler. -/
inductive Update where
  | ready
  | waiting
  | failed (error : String)
  | cancelled
  deriving DecidableEq, Repr

/-- The `stateUpdateHandler`. -/
def stateUpdate (conn : Connection) : Update → RelayClient
  | .ready => c.enqueue (.greetingSent conn)
  | .waiting => c.setState .connecting
  | .failed e => c.handleSocksFailure s!"Tor proxy: {e}" conn.dial conn.socksPort
  | .cancelled => c.setState .idle

/-- The completion of `beginSocksHandshake`. -/
def greetingSent (conn : Connection) (error : Option String) : RelayClient :=
  match error with
  | some e => c.handleSocksFailure s!"Tor proxy greeting send: {e}" conn.dial conn.socksPort
  | none => c.enqueue (.greetingReply conn)

/-- `sendSocksConnect`. -/
def sendSocksConnect (conn : Connection) : RelayClient :=
  match connectRequest conn.dial.host conn.dial.port with
  | .error e => c.handleSocksFailure s!"Tor proxy connect: {e.description}" conn.dial conn.socksPort
  | .ok _ => c.enqueue (.connectSent conn)

/-- The completion of `readSocksGreetingReply`. -/
def greetingReply (conn : Connection) (data : Option Bytes) (error : Option String) :
    RelayClient :=
  match error, data with
  | some e, _ => c.handleSocksFailure s!"Tor proxy greeting reply: {e}" conn.dial conn.socksPort
  | none, none => c.handleSocksFailure "Tor proxy greeting reply: empty" conn.dial conn.socksPort
  | none, some data =>
    match parseGreetingReply data with
    | .error e =>
      c.handleSocksFailure s!"Tor proxy greeting reply: {e.description}" conn.dial conn.socksPort
    | .ok _ => c.sendSocksConnect conn

/-- The completion of `sendSocksConnect`. -/
def connectSent (conn : Connection) (error : Option String) : RelayClient :=
  match error with
  | some e => c.handleSocksFailure s!"Tor proxy connect send: {e}" conn.dial conn.socksPort
  | none => c.enqueue (.connectReply conn [])

/-- The branch of a complete reply. -/
def didConnect (trailing : Bytes) (signature : Option Bytes) : RelayClient :=
  let c := { c with readBuffer := c.readBuffer ++ trailing }
  let c := c.sendHello signature
  let c := if c.pushToken.isSome then c.sendFrame else c
  (c.setState .connected).scheduleRead

/-- The completion of `readSocksConnectReply`. -/
def connectReply (conn : Connection) (buffer : Bytes) (data : Option Bytes)
    (error : Option String) (signature : Option Bytes) : RelayClient :=
  match error with
  | some e => c.handleSocksFailure s!"Tor proxy connect reply: {e}" conn.dial conn.socksPort
  | none =>
    let buf := buffer ++ data.getD []
    match tryParseConnectReply buf with
    | .error e =>
      c.handleSocksFailure s!"Tor proxy connect reply: {e.description}" conn.dial conn.socksPort
    | .ok (.complete consumed) => c.didConnect (buf.drop consumed) signature
    | .ok .incomplete => c.enqueue (.connectReply conn buf)

/-! ## The Task of a dial (RelayClient.swift:506–619) -/

/-- Tor is up, or the progress is shown from 0 on and polled. -/
def isReady (dial : Dial) (alreadyReady : Bool) : RelayClient :=
  if alreadyReady then c.enqueue (.bootstrap dial)
  else ((c.setState (.connectingToTor 0)).enqueue (.pollProgress dial)).enqueue (.bootstrap dial)

/-- One poll. It polls again until `bootstrap` has returned and cancels it. -/
def pollProgress (dial : Dial) (pct : Int) : RelayClient :=
  let c := if c.pending.contains (.bootstrap dial) then c.enqueue (.pollProgress dial) else c
  match c.state with
  | .connectingToTor _ => c.setState (.connectingToTor pct)
  | _ => c

def bootstrap (dial : Dial) : Except String UInt16 → RelayClient
  | .error e => c.setState (.failed s!"Couldn't start Tor: {e}")
  | .ok socksPort => (c.setState .connecting).enqueue (.prepareHiddenService dial socksPort)

def prepareHiddenService (dial : Dial) (socksPort : UInt16) : Except String Unit → RelayClient
  | .error e => c.setState (.failed s!"Couldn't find this relay through Tor: {e}")
  | .ok _ => c.openSocksConnection env dial socksPort

end RelayClient

/-! ## Events -/

/-- A call from outside, a block that runs with what it waited for, or what a
connection reports. -/
inductive Event where
  | connect (host : List Char) (port : UInt16)
  | disconnect
  | dialDeadline
  | sendFrame
  | registerPush (token : Bytes)
  | deregisterPush
  | stateUpdate (conn : Connection) (update : RelayClient.Update)
  | isReady (dial : Dial) (alreadyReady : Bool)
  | pollProgress (dial : Dial) (pct : Int)
  | bootstrap (dial : Dial) (result : Except String UInt16)
  | prepareHiddenService (dial : Dial) (socksPort : UInt16) (result : Except String Unit)
  | greetingSent (conn : Connection) (error : Option String)
  | greetingReply (conn : Connection) (data : Option Bytes) (error : Option String)
  | connectSent (conn : Connection) (error : Option String)
  | connectReply (conn : Connection) (buffer : Bytes) (data : Option Bytes)
      (error : Option String) (signature : Option Bytes)
  | frameSent (conn : Connection) (error : Option String)
  | read (conn : Connection) (data : Option Bytes) (isComplete : Bool) (error : Option String)
  | retry (dial : Dial) (socksPort : UInt16) (gen : Nat)

/-- The block that an event runs. -/
def Event.block : Event → Option Block
  | .isReady dial _ => some (.isReady dial)
  | .pollProgress dial _ => some (.pollProgress dial)
  | .bootstrap dial _ => some (.bootstrap dial)
  | .prepareHiddenService dial socksPort _ => some (.prepareHiddenService dial socksPort)
  | .greetingSent conn _ => some (.greetingSent conn)
  | .greetingReply conn _ _ => some (.greetingReply conn)
  | .connectSent conn _ => some (.connectSent conn)
  | .connectReply conn buffer _ _ _ => some (.connectReply conn buffer)
  | .frameSent conn _ => some (.frameSent conn)
  | .read conn _ _ _ => some (.read conn)
  | .retry dial socksPort gen => some (.retry dial socksPort gen)
  | _ => none

/-- The dial that started an event. -/
def Event.dial : Event → Option Dial
  | .stateUpdate conn _ => some conn.dial
  | event => event.block.map Block.dial

namespace RelayClient

/-- What can happen: the timer fires while it is armed, a handler is heard
while it is set, and a block runs that is under way. -/
def Enabled (c : RelayClient) : Event → Prop
  | .dialDeadline => c.dialDeadlineArmed = true
  | .stateUpdate conn _ => conn ∈ c.handled
  | event => ∀ block ∈ event.block, block ∈ c.pending

/-- The block of an event is no longer under way. -/
def dequeue (c : RelayClient) (event : Event) : RelayClient :=
  match event.block with
  | none => c
  | some block => { c with pending := c.pending.erase block }

def run (env : DialEnv) (c : RelayClient) : Event → RelayClient
  | .connect host port => c.connect env host port
  | .disconnect => c.disconnect
  | .dialDeadline => c.dialDeadline
  | .sendFrame => c.sendFrame
  | .registerPush token => c.registerPush token
  | .deregisterPush => c.deregisterPush
  | .stateUpdate conn update => c.stateUpdate conn update
  | .isReady dial alreadyReady => c.isReady dial alreadyReady
  | .pollProgress dial pct => c.pollProgress dial pct
  | .bootstrap dial result => c.bootstrap dial result
  | .prepareHiddenService dial socksPort result => c.prepareHiddenService env dial socksPort result
  | .greetingSent conn error => c.greetingSent conn error
  | .greetingReply conn data error => c.greetingReply conn data error
  | .connectSent conn error => c.connectSent conn error
  | .connectReply conn buffer data error signature =>
    c.connectReply conn buffer data error signature
  | .frameSent _ error => c.didSend error
  | .read _ data isComplete error => c.didRead data isComplete error
  | .retry dial socksPort gen => c.retry env dial socksPort gen

def exec (env : DialEnv) (c : RelayClient) (event : Event) : RelayClient :=
  (c.dequeue event).run env event

/-- An event that can happen happens. -/
def Step (env : DialEnv) (c : RelayClient) (event : Event) (c' : RelayClient) : Prop :=
  c.Enabled event ∧ c' = c.exec env event

/-- A client as `init` makes it. -/
def fresh : RelayClient := ⟨.idle, [], none, 0, [], [], 0, 0, false, none, []⟩

end RelayClient

end Pizzini.Client
