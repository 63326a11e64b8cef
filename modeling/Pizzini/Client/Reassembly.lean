import Pizzini.Lib.CutFrames
import Pizzini.Client.RelayClient

/-!
# Frames across reads

The relay writes frames, the network cuts the stream wherever it likes, and the client
appends what arrives to `readBuffer` and drains it. Which payloads `handleFrame` gets does
not depend on the cuts (`reassembly`).

The argument is about one read. The buffer holds less than a frame, so after the read it
begins with the frames that the new bytes complete: the loop hands these over and leaves
the rest (`drainFrames_of_prefix`). From there the reads go on with the payloads that are
outstanding.
-/

namespace Pizzini.Relay

open Wire

/-- `write_frame` (main.rs:2973–2981): the bytes it puts on the wire. -/
def writeFrame (payload : Bytes) : Except String Bytes :=
  if payload.length < 2 ^ 32 then .ok (beBytes 4 payload.length ++ payload)
  else .error "frame too large"

end Pizzini.Relay

namespace Pizzini.Client

open Wire

namespace RelayClient

/-! ## What the client hands over (RelayClient.swift:1289–1306) -/

/-- The payloads of the calls of `handleFrame`, in one `drainFrames`. -/
def handed (readBuffer : Bytes) : List Bytes :=
  if readBuffer.length < 4 then []
  else
    let len := beNat (readBuffer.take 4)
    if len > maxFrameBytes then []
    else if readBuffer.length < 4 + len then []
    else (readBuffer.take (4 + len)).drop 4 :: handed (readBuffer.drop (4 + len))
termination_by readBuffer.length
decreasing_by rw [List.length_drop]; omega

/-- The completions of `scheduleRead` with these pieces: the client behind them, and the
payloads it handed to `handleFrame` meanwhile. -/
def feed : List Bytes → RelayClient → RelayClient × List Bytes
  | [], c => (c, [])
  | piece :: pieces, c =>
    let calls := if piece = [] then [] else handed (c.readBuffer ++ piece)
    let (c, later) := feed pieces (c.didRead (some piece) false none)
    (c, calls ++ later)

/-! ## One read -/

theorem take_frame_append {p : Bytes} (rest : Bytes) :
    (frame p ++ rest).take 4 = beBytes 4 p.length := by
  rw [frame, List.append_assoc]
  exact List.take_left' (length_beBytes 4 _)

/-- A whole frame in front is handed over, and the loop goes on behind it. -/
theorem drain_frame {p : Bytes} (hsize : p.length ≤ maxFrameBytes) (rest : Bytes) :
    handed (frame p ++ rest) = p :: handed rest ∧
      drainFrames (frame p ++ rest) = drainFrames rest := by
  have hlen : beNat ((frame p ++ rest).take 4) = p.length := by
    rw [take_frame_append]
    refine beNat_beBytes (Nat.lt_of_le_of_lt hsize ?_)
    decide
  have hlong : ¬ (frame p ++ rest).length < 4 := by
    rw [List.length_append, length_frame]
    omega
  have hwhole : ¬ (frame p ++ rest).length < 4 + p.length := by
    rw [List.length_append, length_frame]
    omega
  have hdrop : (frame p ++ rest).drop (4 + p.length) = rest :=
    List.drop_left' (length_frame p)
  have hpayload : ((frame p ++ rest).take (4 + p.length)).drop 4 = p := by
    rw [List.take_left' (length_frame p), frame]
    exact List.drop_left' (length_beBytes 4 _)
  constructor
  · rw [handed, if_neg hlong]
    simp only [hlen, if_neg (Nat.not_lt.mpr hsize), if_neg hwhole, hdrop, hpayload]
  · rw [drainFrames, if_neg hlong]
    simp only [hlen, if_neg (Nat.not_lt.mpr hsize), if_neg hwhole, hdrop]

/-- A frame that is cut short stays in the buffer. -/
theorem drain_cut {p bs : Bytes} (hsize : p.length ≤ maxFrameBytes) (hcut : bs <+: frame p)
    (hshort : bs.length < 4 + p.length) : handed bs = [] ∧ drainFrames bs = (bs, none) := by
  by_cases hprefix : bs.length < 4
  · rw [handed, drainFrames, if_pos hprefix, if_pos hprefix]
    exact ⟨rfl, rfl⟩
  · have hlen : beNat (bs.take 4) = p.length := by
      obtain ⟨rest, hrest⟩ := hcut
      have htake : bs.take 4 = (frame p).take 4 := by
        rw [← hrest, List.take_append_of_le_length (Nat.not_lt.mp hprefix)]
      rw [htake, ← List.append_nil (frame p), take_frame_append]
      refine beNat_beBytes (Nat.lt_of_le_of_lt hsize ?_)
      decide
    rw [handed, drainFrames, if_neg hprefix, if_neg hprefix]
    simp only [hlen, if_neg (Nat.not_lt.mpr hsize), if_pos hshort]
    exact ⟨trivial, trivial⟩

/-- The loop hands over the frames that are whole and leaves the unread bytes. -/
theorem drain_of_prefix {ps : List Bytes} (hsize : ∀ p ∈ ps, p.length ≤ maxFrameBytes) :
    ∀ {bs : Bytes}, bs <+: frames ps →
      handed bs = wholePayloads ps bs.length ∧ drainFrames bs = (unread ps bs, none) := by
  induction ps with
  | nil =>
    intro bs h
    rw [frames_nil, List.prefix_nil] at h
    subst h
    rw [handed, drainFrames]
    exact ⟨rfl, rfl⟩
  | cons p ps ih =>
    intro bs h
    obtain ⟨hp, hps⟩ := List.forall_mem_cons.mp hsize
    rw [frames_cons] at h
    by_cases hwhole : 4 + p.length ≤ bs.length
    · have hfront : frame p <+: bs :=
        List.prefix_of_prefix_length_le (List.prefix_append _ _) h (by rwa [length_frame])
      obtain ⟨rest, rfl⟩ := hfront
      obtain ⟨hcalls, hrest⟩ := ih hps ((List.prefix_append_right_inj _).mp h)
      obtain ⟨hcall, hdrain⟩ := drain_frame hp rest
      have hone : frames [p] = frame p := by rw [frames_cons, frames_nil, List.append_nil]
      constructor
      · have happend := wholePayloads_append [p] ps rest.length
        rw [hone] at happend
        rw [hcall, hcalls, List.length_append]
        exact happend.symm
      · have happend := unread_append [p] ps rest
        rw [hone] at happend
        rw [hdrain, hrest]
        exact congrArg (·, none) happend.symm
    · have hcut : bs <+: frame p :=
        List.prefix_of_prefix_length_le h (List.prefix_append _ _) (by rw [length_frame]; omega)
      have hnone : wholePayloads (p :: ps) bs.length = [] := if_neg hwhole
      obtain ⟨hcalls, hdrain⟩ := drain_cut hp hcut (Nat.not_le.mp hwhole)
      rw [unread, hnone]
      exact ⟨hcalls, hdrain⟩

/-- Whatever stands in the buffer, the loop takes off what it hands over and nothing else. -/
theorem frames_handed_append (bs : Bytes) : frames (handed bs) ++ (drainFrames bs).1 = bs := by
  fun_induction drainFrames bs with
  | case1 bs hshort => rw [handed, if_pos hshort, frames_nil, List.nil_append]
  | case2 bs hlong len hlarge =>
    rw [handed, if_neg hlong]
    simp only [show beNat (bs.take 4) > maxFrameBytes from hlarge, if_true, frames_nil,
      List.nil_append]
  | case3 bs hlong len hsize hcut =>
    rw [handed, if_neg hlong]
    simp only [if_neg hsize, if_pos hcut, frames_nil, List.nil_append, len]
  | case4 bs hlong len hsize hwhole ih =>
    have hpayload : ((bs.take (4 + len)).drop 4).length = len := by
      rw [List.length_drop, List.length_take]
      omega
    have hprefix : beBytes 4 len = (bs.take (4 + len)).take 4 := by
      have hback := beBytes_beNat (bs.take 4)
      rw [List.length_take, Nat.min_eq_left (by omega)] at hback
      rw [List.take_take, Nat.min_eq_left (by omega)]
      exact hback
    have hframe : frame ((bs.take (4 + len)).drop 4) = bs.take (4 + len) := by
      rw [frame, hpayload, hprefix, List.take_append_drop]
    rw [handed, if_neg hlong]
    simp only [if_neg hsize, if_neg hwhole, frames_cons, len] at hframe ih ⊢
    rw [hframe, List.append_assoc, ih, List.take_append_drop]

/-! ## Read after read -/

/-- A read whose bytes drain without complaint changes the buffer and schedules the next. -/
theorem didRead_eq {c : RelayClient} {piece tail : Bytes} (hpiece : piece ≠ [])
    (h : drainFrames (c.readBuffer ++ piece) = (tail, none)) :
    c.didRead (some piece) false none = { c with readBuffer := tail }.scheduleRead := by
  have hreceived : received c.readBuffer (some piece) = (tail, none) := by
    cases piece with
    | nil => exact absurd rfl hpiece
    | cons b piece => exact h
  rw [didRead, hreceived]
  rfl

theorem scheduleRead_frame (c : RelayClient) : c.scheduleRead.readBuffer = c.readBuffer ∧
    c.scheduleRead.state = c.state ∧ c.scheduleRead.notified = c.notified := by
  rw [scheduleRead]
  split <;> exact ⟨rfl, rfl, rfl⟩

/-- From a buffer with less than a frame of what is outstanding. -/
theorem feed_of_prefix {pieces : List Bytes} (hpieces : ∀ piece ∈ pieces, piece ≠ []) :
    ∀ {c : RelayClient} {ps : List Bytes}, (∀ p ∈ ps, p.length ≤ maxFrameBytes) →
      wholePayloads ps c.readBuffer.length = [] → c.readBuffer ++ pieces.flatten <+: frames ps →
      (feed pieces c).2 = wholePayloads ps (c.readBuffer ++ pieces.flatten).length ∧
        (feed pieces c).1.readBuffer = unread ps (c.readBuffer ++ pieces.flatten) ∧
        (feed pieces c).1.state = c.state ∧ (feed pieces c).1.notified = c.notified := by
  induction pieces with
  | nil =>
    intro c ps _ hnone _
    rw [List.flatten_nil, List.append_nil, unread, hnone]
    exact ⟨rfl, rfl, rfl, rfl⟩
  | cons piece pieces ih =>
    intro c ps hsize hnone hstream
    obtain ⟨hpiece, hpieces⟩ := List.forall_mem_cons.mp hpieces
    rw [List.flatten_cons, ← List.append_assoc] at hstream ⊢
    generalize hread : c.readBuffer ++ piece = bs at hstream
    have hbs : bs <+: frames ps := (List.prefix_append _ _).trans hstream
    obtain ⟨hcalls, hdrain⟩ := drain_of_prefix hsize hbs
    obtain ⟨done, rest, tail, rfl, rfl, hdone, htail, hnone'⟩ := exists_outstanding hbs
    rw [hdone] at hcalls
    rw [htail] at hdrain
    -- the next read finds the unread bytes and the payloads that are outstanding
    have hnext : c.didRead (some piece) false none = { c with readBuffer := tail }.scheduleRead :=
      didRead_eq hpiece (by rw [hread, hdrain])
    obtain ⟨hbuffer, hstate, hnotified⟩ := scheduleRead_frame { c with readBuffer := tail }
    have hsize' : ∀ p ∈ rest, p.length ≤ maxFrameBytes :=
      fun p hmem => hsize p (List.mem_append_right done hmem)
    rw [frames_append, List.append_assoc, List.prefix_append_right_inj] at hstream
    rw [← hnext] at hbuffer hstate hnotified
    have hlater := ih hpieces hsize' (by rwa [hbuffer]) (by rwa [hbuffer])
    rw [hbuffer, hstate, hnotified] at hlater
    obtain ⟨hcalls', hrest⟩ := hlater
    rw [List.append_assoc, unread_append, List.length_append, wholePayloads_append]
    refine ⟨?_, hrest⟩
    show (if piece = [] then [] else handed (c.readBuffer ++ piece)) ++ (feed pieces _).2 = _
    rw [if_neg hpiece, hread, hcalls, hcalls']

/-! ## The stream of the relay -/

/-- What the relay writes for payloads that the client accepts. -/
theorem mapM_writeFrame {payloads : List Bytes} (hsize : ∀ p ∈ payloads, p.length ≤ maxFrameBytes) :
    payloads.mapM Relay.writeFrame = .ok (payloads.map frame) := by
  have hwrite : ∀ p ∈ payloads, Relay.writeFrame p = .ok (frame p) := by
    intro p hmem
    refine if_pos (Nat.lt_of_le_of_lt (hsize p hmem) ?_)
    decide
  clear hsize
  induction payloads with
  | nil => rfl
  | cons p payloads ih =>
    obtain ⟨hp, hrest⟩ := List.forall_mem_cons.mp hwrite
    rw [List.mapM_cons, hp, ih hrest]
    rfl

/-- However the stream of the relay is cut into reads, after every read the payloads that
have arrived whole have been handed over, once each and in order, the unread bytes are in
the buffer, and the state has not changed. -/
theorem reassembly (payloads : List Bytes) (hsize : ∀ p ∈ payloads, p.length ≤ maxFrameBytes) :
    ∃ written, payloads.mapM Relay.writeFrame = .ok written ∧
      ∀ pieces : List Bytes, (∀ piece ∈ pieces, piece ≠ []) → pieces.flatten <+: written.flatten →
        ∀ c : RelayClient, c.readBuffer = [] → ∀ earlier, earlier <+: pieces →
          (feed earlier c).2 = wholePayloads payloads earlier.flatten.length ∧
            (feed earlier c).1.readBuffer = unread payloads earlier.flatten ∧
            (feed earlier c).1.state = c.state ∧ (feed earlier c).1.notified = c.notified := by
  refine ⟨payloads.map frame, mapM_writeFrame hsize, ?_⟩
  intro pieces hpieces hstream c hempty earlier hearlier
  have hearlierPieces : ∀ piece ∈ earlier, piece ≠ [] :=
    fun piece hmem => hpieces piece (hearlier.subset hmem)
  have hflat : earlier.flatten <+: frames payloads := by
    obtain ⟨later, rfl⟩ := hearlier
    rw [List.flatten_append] at hstream
    exact (List.prefix_append _ _).trans hstream
  have hnone : wholePayloads payloads c.readBuffer.length = [] := by
    rw [hempty]
    cases payloads with
    | nil => rfl
    | cons p payloads => exact if_neg (by rw [List.length_nil]; omega)
  have hfed := feed_of_prefix hearlierPieces hsize hnone (by rwa [hempty, List.nil_append])
  rwa [hempty, List.nil_append] at hfed

/-- A read that ends inside a length and one that holds the end of a frame and the beginning
of the next. -/
theorem reassembly_across_two_frames :
    (feed [[0, 0], [0, 1, 7, 0, 0], [0, 2, 8]] fresh).2 = [[7]] ∧
      (feed [[0, 0], [0, 1, 7, 0, 0], [0, 2, 8]] fresh).1.readBuffer = [0, 0, 0, 2, 8] := by
  obtain ⟨written, hwritten, hreads⟩ := reassembly [[7], [8, 9]] (by decide)
  have hstream : written = [[0, 0, 0, 1, 7], [0, 0, 0, 2, 8, 9]] :=
    (Except.ok.inj hwritten).symm
  subst hstream
  have hread := hreads [[0, 0], [0, 1, 7, 0, 0], [0, 2, 8]] (by decide) (by decide) fresh rfl _
    (List.prefix_refl _)
  exact ⟨hread.1, hread.2.1⟩

end RelayClient

end Pizzini.Client
