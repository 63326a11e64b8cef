import Pizzini.Lib.Fields

/-!
# SOCKS5 and onion hosts

The frame builder and the two parsers of `Socks5.swift`, and the check of
`OnionHost` that stands in front of every dial. A text is a list of
characters. The compatibility normalisation and the lower-casing of a text are
tables of the Unicode standard and parameters here.
-/

namespace Pizzini.Client

open Wire

/-! ## Onion hosts (RelayRegistry.swift:100–137) -/

/-- The Unicode tables of `OnionHost.canonical`: whether a text is its own
compatibility mapping, and its lower case. -/
structure HostTables where
  isCompatibilityMapped : List Char → Bool
  lowercased : List Char → List Char

def onionAlphabet : List Char := "abcdefghijklmnopqrstuvwxyz234567".toList

/-- `OnionHost.canonical`. -/
def HostTables.canonical (tables : HostTables) (raw : List Char) : Option (List Char) := do
  if !tables.isCompatibilityMapped raw then none
  let lowered := tables.lowercased raw
  if lowered.any fun ch => ch.toNat < 0x21 || ch.toNat > 0x7E then none
  match lowered.splitOn '.' with
  | [label, suffix] =>
    if suffix ≠ "onion".toList then none
    else if label.length ≠ 56 then none
    else if label.any fun ch => !onionAlphabet.contains ch then none
    else some lowered
  | _ => none

/-! ## Errors (Socks5.swift:54–119) -/

inductive FrameError where
  | shortRead
  | badVersion (version : UInt8)
  | noAcceptableMethods
  | hostTooLong (count : Nat)
  | replyTooLong (count : Nat)
  | rejected (code : UInt8)
  | unsupportedReplyAddressType (atyp : UInt8)
  deriving DecidableEq, Repr

/-- `String(format: "%02x", byte)`. -/
def hexByte (byte : UInt8) : String :=
  let digit (n : Nat) : Char := "0123456789abcdef".toList.getD n '0'
  String.ofList [digit (byte.toNat / 16), digit (byte.toNat % 16)]

/-- `FrameError.repName`. -/
def repName (code : UInt8) : String :=
  match code.toNat with
  | 1 => "general SOCKS server failure"
  | 2 => "connection not allowed by ruleset"
  | 3 => "network unreachable"
  | 4 => "host unreachable"
  | 5 => "connection refused"
  | 6 => "TTL expired"
  | 7 => "command not supported"
  | 8 => "address type not supported"
  | _ => "rejected"

/-- `FrameError.description`. -/
def FrameError.description : FrameError → String
  | .shortRead => "incomplete SOCKS5 reply (short read)"
  | .badVersion v => s!"SOCKS5 version mismatch (got 0x{hexByte v}, expected 0x05)"
  | .noAcceptableMethods => "SOCKS5 proxy rejected NO-AUTH method"
  | .hostTooLong n => s!"SOCKS5 domain target exceeds 255 bytes ({n})"
  | .replyTooLong n => s!"SOCKS5 reply exceeds 262-byte maximum ({n})"
  | .rejected code => s!"SOCKS5 {repName code} (REP=0x{hexByte code})"
  | .unsupportedReplyAddressType t => s!"SOCKS5 reply ATYP unsupported (0x{hexByte t})"

/-! ## Frames (Socks5.swift:26–52, 121–191) -/

/-- `Socks5.connectRequest`. -/
def connectRequest (host : List Char) (port : UInt16) : Except FrameError Bytes :=
  let hostBytes := utf8 (String.ofList host)
  if hostBytes.length ≤ 255 then
    .ok ([0x05, 0x01, 0x00, 0x03, UInt8.ofNat hostBytes.length] ++ hostBytes ++
      beBytes 2 port.toNat)
  else .error (.hostTooLong hostBytes.length)

/-- `Socks5.parseGreetingReply`. -/
def parseGreetingReply : Bytes → Except FrameError UInt8
  | version :: method :: _ =>
    if version ≠ 0x05 then .error (.badVersion version)
    else if method ≠ 0x00 then .error .noAcceptableMethods
    else .ok method
  | _ => .error .shortRead

inductive ConnectParseResult where
  | complete (consumed : Nat)
  | incomplete
  deriving DecidableEq, Repr

def maxConnectReplyBytes : Nat := 4 + 1 + 255 + 2

/-- The length of `BND.ADDR`, with its length byte for a domain; `none` where
that byte is still missing. -/
def boundAddressLength (atyp : UInt8) (rest : Bytes) : Except FrameError (Option Nat) :=
  if atyp = 0x01 then .ok (some 4)
  else if atyp = 0x04 then .ok (some 16)
  else if atyp = 0x03 then .ok (rest.head?.map fun length => 1 + length.toNat)
  else .error (.unsupportedReplyAddressType atyp)

/-- `Socks5.tryParseConnectReply`. -/
def tryParseConnectReply (data : Bytes) : Except FrameError ConnectParseResult :=
  if data.length > maxConnectReplyBytes then .error (.replyTooLong data.length)
  else match data with
    | version :: reply :: _ :: atyp :: rest =>
      if version ≠ 0x05 then .error (.badVersion version)
      else if reply ≠ 0x00 then .error (.rejected reply)
      else match boundAddressLength atyp rest with
        | .error e => .error e
        | .ok none => .ok .incomplete
        | .ok (some addrLen) =>
          if data.length < 4 + addrLen + 2 then .ok .incomplete
          else .ok (.complete (4 + addrLen + 2))
    | _ => .ok .incomplete

/-- What a complete reply consumes is there, and no longer than a reply may be. -/
theorem tryParseConnectReply_complete {data : Bytes} {consumed : Nat}
    (h : tryParseConnectReply data = .ok (.complete consumed)) :
    consumed ≤ data.length ∧ consumed ≤ maxConnectReplyBytes := by
  revert h
  fun_cases tryParseConnectReply data with
  | case6 _ _ _ _ _ _ _ _ _ _ hshort =>
    rw [if_pos hshort]
    intro h
    cases h
  | case7 _ _ _ _ _ _ _ _ _ hlong hwhole =>
    rw [if_neg hwhole]
    intro h
    cases h
    omega
  | _ =>
    intro h
    cases h

end Pizzini.Client
