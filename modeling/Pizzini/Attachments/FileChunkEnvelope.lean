import Pizzini.Lib.Fields

/-!
# `FileChunkEnvelope.swift`: chunks of a file on the wire

A file goes out in chunks of 64 KiB, each in an envelope that repeats the
attachment's id, size, chunk count, mime type and name. The module has the
codec with its caps and the sender's split of a file (ChatStore.swift:2505–2527,
2622–2634), and shows that the two fit: every chunk of an admissible file is
decoded as it was cut (`decode_payload`), and the chunks in order are the file
(`flatten_chunks`).
-/

namespace Pizzini.Attachments

open Wire

/-- A 16-byte attachment id. -/
abbrev AttachmentId := FixedBytes 16

instance : LawfulBEq AttachmentId := inferInstance

/-- `FileChunkEnvelope` (FileChunkEnvelope.swift:29–36). -/
structure FileChunkEnvelope where
  attachmentId : AttachmentId
  totalSize : Nat
  chunkIndex : Nat
  chunkCount : Nat
  mime : String
  filename : String
  chunkBytes : Bytes
  deriving DecidableEq

namespace FileChunkEnvelope

/-! ## Caps (FileChunkEnvelope.swift:44–64) -/

def maxChunkPlaintextBytes : Nat := 64 * 1024
def maxChunkCount : Nat := 1024
def maxFilenameBytes : Nat := 1024
def maxMimeBytes : Nat := 256
def maxTotalSize : Nat := maxChunkCount * maxChunkPlaintextBytes

/-- `CodecError`, less `attachmentIdLength`: `take(16)` never returns another
length, and the id's type says so. -/
inductive CodecError where
  | truncated
  | oversizedChunkCount
  | oversizedTotalSize
  | oversizedFilename
  | oversizedMime
  | chunkIndexOutOfRange
  | oversizedChunk
  deriving DecidableEq

/-! ## Codec -/

/-- `encode` (FileChunkEnvelope.swift:79–99). `UInt16(mimeBytes.count)` stops
the program on a text of 2^16 bytes or more. -/
def encode (e : FileChunkEnvelope) : Option Bytes :=
  if (utf8 e.mime).length < 256 ^ 2 ∧ (utf8 e.filename).length < 256 ^ 2 then
    some (e.attachmentId.1 ++ (beBytes 8 e.totalSize ++ (beBytes 4 e.chunkIndex ++
      (beBytes 4 e.chunkCount ++ (textBytes e.mime ++ (textBytes e.filename ++ e.chunkBytes))))))
  else none

/-- `guard let … else { throw CodecError.truncated }`. -/
def orTruncated {α : Type} : Option α → Except CodecError α
  | some a => .ok a
  | none => .error .truncated

/-- `if … { throw … }`. -/
def refuse (condition : Bool) (error : CodecError) : Except CodecError Unit :=
  if condition then .error error else .ok ()

/-- A text field: its `u16` length, checked against the cap before the bytes
are read. Bytes that are not UTF-8 read as the empty text. -/
def takeCapped (cap : Nat) (oversized : CodecError) (data : Bytes) :
    Except CodecError (String × Bytes) := do
  let (len, data) ← orTruncated (takeNat 2 data)
  refuse (cap < len) oversized
  let (raw, data) ← orTruncated (takeBytes len data)
  return ((ofUtf8? raw).getD "", data)

/-- `decode` (FileChunkEnvelope.swift:105–138). -/
def decode (data : Bytes) : Except CodecError FileChunkEnvelope := do
  let (aid, data) ← orTruncated (takeFixed 16 data)
  let (total, data) ← orTruncated (takeNat 8 data)
  let (idx, data) ← orTruncated (takeNat 4 data)
  let (count, data) ← orTruncated (takeNat 4 data)
  refuse (count = 0 ∨ maxChunkCount < count) .oversizedChunkCount
  refuse (maxTotalSize < total) .oversizedTotalSize
  refuse (count ≤ idx) .chunkIndexOutOfRange
  let (mime, data) ← takeCapped maxMimeBytes .oversizedMime data
  let (filename, chunkBytes) ← takeCapped maxFilenameBytes .oversizedFilename data
  refuse (maxChunkPlaintextBytes < chunkBytes.length) .oversizedChunk
  return ⟨aid, total, idx, count, mime, filename, chunkBytes⟩

/-- The envelopes that the decoder's caps let through. -/
structure WithinCaps (e : FileChunkEnvelope) : Prop where
  count_pos : 0 < e.chunkCount
  count_le : e.chunkCount ≤ maxChunkCount
  total_le : e.totalSize ≤ maxTotalSize
  index_lt : e.chunkIndex < e.chunkCount
  mime_le : (utf8 e.mime).length ≤ maxMimeBytes
  filename_le : (utf8 e.filename).length ≤ maxFilenameBytes
  chunk_le : e.chunkBytes.length ≤ maxChunkPlaintextBytes

theorem refuse_of_not {condition : Bool} (h : condition = false) (error : CodecError) :
    refuse condition error = .ok () := by
  rw [refuse, h]
  rfl

theorem takeCapped_append {cap : Nat} {s : String} (hcap : cap < 256 ^ 2)
    (hs : (utf8 s).length ≤ cap) (oversized : CodecError) (rest : Bytes) :
    takeCapped cap oversized (textBytes s ++ rest) = .ok (s, rest) := by
  have hlen : (utf8 s).length < 256 ^ 2 := Nat.lt_of_le_of_lt hs hcap
  have hfits : decide (cap < (utf8 s).length) = false := by simpa using hs
  rw [takeCapped, textBytes, List.append_assoc, takeNat_append hlen]
  simp only [orTruncated, bind, Except.bind, refuse_of_not hfits, takeBytes_append rfl,
    ofUtf8?_utf8, Option.getD_some]
  rfl

/-- An envelope within the caps is decoded from its own bytes. -/
theorem decode_encode {e : FileChunkEnvelope} (h : e.WithinCaps) {data : Bytes}
    (hdata : e.encode = some data) : decode data = .ok e := by
  obtain ⟨hpos, hcount, htotal, hidx, hmime, hname, hchunk⟩ := h
  rw [encode] at hdata
  split at hdata
  · cases hdata
    have htotal64 : e.totalSize < 256 ^ 8 := Nat.lt_of_le_of_lt htotal (by decide)
    have hcount32 : e.chunkCount < 256 ^ 4 := Nat.lt_of_le_of_lt hcount (by decide)
    have hidx32 : e.chunkIndex < 256 ^ 4 := Nat.lt_trans hidx hcount32
    have hcountOk : decide (e.chunkCount = 0 ∨ maxChunkCount < e.chunkCount) = false := by
      simpa using ⟨Nat.pos_iff_ne_zero.mp hpos, hcount⟩
    have htotalOk : decide (maxTotalSize < e.totalSize) = false := by simpa using htotal
    have hidxOk : decide (e.chunkCount ≤ e.chunkIndex) = false := by simpa using hidx
    have hchunkOk : decide (maxChunkPlaintextBytes < e.chunkBytes.length) = false := by
      simpa using hchunk
    rw [decode, takeFixed_append]
    simp only [orTruncated, bind, Except.bind, takeNat_append htotal64, takeNat_append hidx32,
      takeNat_append hcount32, refuse_of_not hcountOk, refuse_of_not htotalOk,
      refuse_of_not hidxOk, takeCapped_append (by decide) hmime,
      takeCapped_append (by decide) hname, refuse_of_not hchunkOk]
    rfl
  · exact absurd hdata (by simp)

end FileChunkEnvelope

/-! ## The sender's split (ChatStore.swift:2505–2527, 2622–2634) -/

open FileChunkEnvelope

/-- An attachment as `sendFile` prepares it: `safeName`, `mime` and the bytes
left after metadata stripping. -/
structure Outgoing where
  attachmentId : AttachmentId
  bytes : Bytes
  mime : String
  filename : String
  deriving DecidableEq

namespace Outgoing

variable (out : Outgoing)

/-- `max(1, (totalSize + chunkSize - 1) / chunkSize)`. -/
def chunkCount : Nat :=
  max 1 ((out.bytes.length + maxChunkPlaintextBytes - 1) / maxChunkPlaintextBytes)

/-- `bytes.subdata(in: start..<end)` for chunk `i`. -/
def chunk (i : Nat) : Bytes :=
  let start := i * maxChunkPlaintextBytes
  let stop := min (start + maxChunkPlaintextBytes) out.bytes.length
  (out.bytes.take stop).drop start

/-- The chunks, in order. -/
def chunks : List Bytes := (List.range out.chunkCount).map out.chunk

/-- The envelope of chunk `i`. -/
def envelope (i : Nat) : FileChunkEnvelope where
  attachmentId := out.attachmentId
  totalSize := out.bytes.length
  chunkIndex := i
  chunkCount := out.chunkCount
  mime := out.mime
  filename := out.filename
  chunkBytes := out.chunk i

/-- The bytes of chunk `i` on the wire. -/
def payload (i : Nat) : Option Bytes := (out.envelope i).encode

/-- What the sender lets out (`chunkCount ≤ maxChunkCount`) and the codec's text
caps. -/
structure Admissible : Prop where
  count_le : out.chunkCount ≤ maxChunkCount
  mime_le : (utf8 out.mime).length ≤ maxMimeBytes
  filename_le : (utf8 out.filename).length ≤ maxFilenameBytes

theorem chunkCount_pos : 0 < out.chunkCount :=
  Nat.lt_of_lt_of_le Nat.zero_lt_one (Nat.le_max_left _ _)

/-- The chunks cover the file. -/
theorem length_le_chunkCount : out.bytes.length ≤ out.chunkCount * maxChunkPlaintextBytes := by
  unfold chunkCount maxChunkPlaintextBytes
  omega

theorem length_chunk_le (i : Nat) : (out.chunk i).length ≤ maxChunkPlaintextBytes := by
  simp only [chunk, List.length_drop, List.length_take]
  omega

/-- A chunk is no longer than the file. -/
theorem length_chunk_le_length (i : Nat) : (out.chunk i).length ≤ out.bytes.length := by
  simp only [chunk, List.length_drop, List.length_take]
  omega

/-- The first `n` chunks are the first `n` times 64 KiB of the file. -/
theorem flatten_take_chunks (n : Nat) :
    ((List.range n).map out.chunk).flatten = out.bytes.take (n * maxChunkPlaintextBytes) := by
  induction n with
  | zero => simp
  | succ n ih =>
    have hstop : (n + 1) * maxChunkPlaintextBytes
        = n * maxChunkPlaintextBytes + maxChunkPlaintextBytes := Nat.succ_mul _ _
    have htake : ∀ m, out.bytes.take (min m out.bytes.length) = out.bytes.take m := by
      intro m
      rw [← List.take_take, List.take_length]
    have hfront : out.bytes.take (n * maxChunkPlaintextBytes)
        = (out.bytes.take ((n + 1) * maxChunkPlaintextBytes)).take
            (n * maxChunkPlaintextBytes) := by
      rw [List.take_take, Nat.min_eq_left (by omega)]
    simp only [List.range_succ, List.map_append, List.flatten_append, ih, List.map_cons,
      List.map_nil, List.flatten_cons, List.flatten_nil, List.append_nil, chunk, ← hstop, htake]
    rw [hfront, List.take_append_drop]

/-- The chunks in order are the file. -/
theorem flatten_chunks : out.chunks.flatten = out.bytes := by
  rw [chunks, flatten_take_chunks]
  exact List.take_of_length_le out.length_le_chunkCount

variable {out}

theorem Admissible.withinCaps (h : out.Admissible) {i : Nat} (hi : i < out.chunkCount) :
    (out.envelope i).WithinCaps where
  count_pos := out.chunkCount_pos
  count_le := h.count_le
  total_le := Nat.le_trans out.length_le_chunkCount (Nat.mul_le_mul_right _ h.count_le)
  index_lt := hi
  mime_le := h.mime_le
  filename_le := h.filename_le
  chunk_le := out.length_chunk_le i

/-- Every chunk of an admissible file goes out and is decoded as it was cut. -/
theorem decode_payload (h : out.Admissible) {i : Nat} (hi : i < out.chunkCount) {data : Bytes}
    (hdata : out.payload i = some data) : decode data = .ok (out.envelope i) :=
  decode_encode (h.withinCaps hi) hdata

theorem payload_isSome (h : out.Admissible) (i : Nat) : (out.payload i).isSome := by
  have hmime : (utf8 out.mime).length < 256 ^ 2 := Nat.lt_of_le_of_lt h.mime_le (by decide)
  have hname : (utf8 out.filename).length < 256 ^ 2 :=
    Nat.lt_of_le_of_lt h.filename_le (by decide)
  rw [payload, encode, if_pos ⟨hmime, hname⟩]
  rfl

end Outgoing

end Pizzini.Attachments
