import Mathlib.Data.Bool.AllAny
import Pizzini.Client.OnionHost
import Pizzini.Lib.ParseInteger
import Pizzini.Lib.Trim

/-!
# Contact cards (ContactCard.swift)

A card is a text `pizzini1://<peerIdHex>@<host>:<port>` that somebody pastes or scans. Eight
checks in a row decide whether it is one. Two of them leave the digits to the number parsers
of the library, which take a sign: `+5` is read as the byte 5 and `+7777` as a port. On every
text without such a sign `validate` accepts exactly the grammar (`readsGrammar_iff`).
-/

namespace Pizzini.Client

open Wire ParseInteger Trim

/-! ## Cards (ContactCard.swift:12–23, 181–188) -/

structure ContactCard where
  peerId : Bytes
  host : List Char
  port : UInt16
  deriving DecidableEq, Repr

/-- The prefix of a card. -/
def scheme : List Char := "pizzini1://".toList

/-- `encoded`. -/
def ContactCard.encoded (card : ContactCard) : List Char :=
  scheme ++ card.peerId.flatMap (fun b => (hexByte b).toList) ++
    '@' :: (card.host ++ ':' :: Nat.toDigits 10 card.port.toNat)

structure ContactCardDecodeError where
  reason : String
  deriving DecidableEq, Repr

/-- The Unicode tables of `validate`: the members of `.whitespacesAndNewlines`, and whether a
text is canonically equivalent to its compatibility mapping. -/
structure CardTables where
  isBlank : Char → Bool
  isCompatibilityMapped : List Char → Bool

/-! ## `validate` (ContactCard.swift:83–177) -/

def utf8Count (text : List Char) : Nat := (text.map Char.utf8Size).sum

/-- The text up to the first separator and the text behind it. -/
def splitFirst (separator : Char) (text : List Char) : Option (List Char × List Char) :=
  match text.dropWhile (· ≠ separator) with
  | [] => none
  | _ :: rest => some (text.takeWhile (· ≠ separator), rest)

/-- The text up to the last separator and the text behind it. -/
def splitLast (separator : Char) (text : List Char) : Option (List Char × List Char) :=
  (splitFirst separator text.reverse).map fun r => (r.2.reverse, r.1.reverse)

/-- Rules 1 to 4: the text behind the scheme. -/
def bodyOf (T : CardTables) (raw : List Char) : Except ContactCardDecodeError (List Char) :=
  if 4096 < utf8Count raw then
    .error ⟨"The pasted text is too long for a contact card. A real card is short and starts with pizzini1://."⟩
  else
    let trimmed := trimming T.isBlank raw
    if trimmed = [] then .error ⟨"Your clipboard is empty."⟩
    else if !T.isCompatibilityMapped trimmed then
      .error ⟨"The pasted text contains non-standard characters (possibly a look-alike). It is not a Pizzini contact card."⟩
    else if trimmed.any fun c => c.toNat < 0x20 || c.toNat > 0x7E then
      .error ⟨"The pasted text contains characters that don't belong in a contact card."⟩
    else if !scheme.isPrefixOf trimmed then
      .error ⟨"This is not a Pizzini contact card. Cards start with pizzini1://."⟩
    else .ok (trimmed.drop scheme.length)

/-- Rule 5: the texts of the peer id, the host and the port. -/
def splitBody (body : List Char) :
    Except ContactCardDecodeError (List Char × List Char × List Char) :=
  match splitFirst '@' body with
  | none => .error ⟨"The contact card is malformed (missing @ separator)."⟩
  | some (hex, hostPort) =>
    if '@' ∈ hostPort then .error ⟨"The contact card has too many @ separators."⟩
    else match splitLast ':' hostPort with
      | none => .error ⟨"The contact card is missing the :port suffix."⟩
      | some (host, portStr) =>
        if ':' ∈ host then .error ⟨"The contact card has too many : separators."⟩
        else .ok (hex, host, portStr)

/-- The bytes that `UInt8(_:radix:)` reads off the pairs of characters. -/
def readBytes : List Char → Option Bytes
  | a :: b :: rest => do
    let byte ← parseUnsigned 256 16 [a, b]
    let bytes ← readBytes rest
    return UInt8.ofNat byte :: bytes
  | _ => some []

def hexDigits : List Char := "0123456789abcdefABCDEF".toList

/-- A bounded quantifier is decided by walking its list. -/
local instance (priority := high) decidableForallMem {α : Type} (p : α → Prop) [DecidablePred p]
    (l : List α) : Decidable (∀ a ∈ l, p a) := List.decidableBAll p l

/-- Rules 6 to 7b. -/
def readPeerId (hex : List Char) : Except ContactCardDecodeError Bytes :=
  let hexLower := hex.map Char.toLower
  if hexLower.length ≠ 66 then
    .error ⟨s!"The contact card's identity is the wrong length (expected 66 hex characters, got {hex.length})."⟩
  else if hexLower ≠ hex ∧ ¬ ∀ c ∈ hex, c ∈ hexDigits then
    .error ⟨"The contact card's identity contains non-hex characters."⟩
  else match readBytes hexLower with
    | none => .error ⟨"The contact card's identity contains non-hex characters."⟩
    | some bytes =>
      if ∀ b ∈ bytes, b = 0 then
        .error ⟨"The contact card's identity is all zeros — not a real identity."⟩
      else if ∃ first ∈ bytes.head?, ∀ b ∈ bytes, b = first then
        .error ⟨"The contact card's identity has no entropy — likely a test or corrupted card."⟩
      else if bytes.head? ≠ some 0x05 then
        .error ⟨"The contact card's identity is not a valid key (unexpected key type)."⟩
      else .ok bytes

/-- Rule 8. -/
def readPort (portStr : List Char) : Except ContactCardDecodeError UInt16 :=
  let shown := if portStr = [] then "missing" else String.ofList portStr
  match parseUnsigned (2 ^ 16) 10 portStr with
  | none => .error ⟨s!"The contact card has an invalid port ({shown})."⟩
  | some port =>
    if port > 0 then .ok (UInt16.ofNat port)
    else .error ⟨s!"The contact card has an invalid port ({shown})."⟩

/-- `validate`. -/
def validate (T : CardTables) (raw : List Char) : Except ContactCardDecodeError ContactCard := do
  let body ← bodyOf T raw
  let (hex, host, portStr) ← splitBody body
  let peerId ← readPeerId hex
  let port ← readPort portStr
  return { peerId, host, port }

/-! ## The grammar -/

/-- The value of a hexadecimal digit; a sign counts nothing. -/
def hexValue (c : Char) : Nat := (digitValue 16 c).getD 0

def pairByte (p : Char × Char) : UInt8 := UInt8.ofNat (hexValue p.1 * 16 + hexValue p.2)

def hexText (pairs : List (Char × Char)) : List Char := pairs.flatMap fun p => [p.1, p.2]

def HexPair (p : Char × Char) : Prop := p.1 ∈ hexDigits ∧ p.2 ∈ hexDigits

/-- A sign and a digit that the library reads as a byte. -/
def SignedPair (p : Char × Char) : Prop := p.1 = '+' ∧ p.2 ∈ hexDigits ∨ p.1 = '-' ∧ p.2 = '0'

/-- A non-empty string of decimal digits. -/
def Decimal (digits : List Char) : Prop := digits ≠ [] ∧ ∀ c ∈ digits, c.isDigit

/-- The port without a plus sign. -/
def unsigned : List Char → List Char
  | '+' :: digits => digits
  | digits => digits

/-- A printable text of the shape of a card, with 33 pairs of characters for the peer id and
`port` for the port, that stands for this card. -/
structure CardText (text : List Char) (pairs : List (Char × Char)) (port : List Char)
    (card : ContactCard) : Prop where
  printable : ∀ c ∈ text, 0x20 ≤ c.toNat ∧ c.toNat ≤ 0x7E
  text_eq : text = scheme ++ hexText pairs ++ '@' :: (card.host ++ ':' :: port)
  length : pairs.length = 33
  host : '@' ∉ card.host ∧ ':' ∉ card.host
  peerId : card.peerId = pairs.map pairByte
  keyType : card.peerId.head? = some 0x05
  entropy : ¬ ∃ first, ∀ b ∈ card.peerId, b = first
  port : Nat.ofDigitChars 10 (unsigned port) 0 = card.port.toNat
  port_pos : 0 < card.port.toNat

/-- The text is a card: the peer id is in hexadecimal digits, the port in decimal ones. -/
def Grammar (text : List Char) (card : ContactCard) : Prop :=
  ∃ pairs port, CardText text pairs port card ∧ (∀ p ∈ pairs, HexPair p) ∧ Decimal port

/-- The text is a card but for a sign: in front of the port, or in a pair of the peer id, of
which no letter is upper case then. -/
def SignedCard (text : List Char) : Prop :=
  ∃ pairs port card, CardText text pairs port card ∧ (∀ p ∈ pairs, HexPair p ∨ SignedPair p) ∧
    ((hexText pairs).map Char.toLower = hexText pairs ∨ ∀ p ∈ pairs, HexPair p) ∧
    Decimal (unsigned port) ∧ ((∃ p ∈ pairs, SignedPair p) ∨ port.head? = some '+')

/-! ## Separators -/

theorem splitFirst_eq_some_iff {separator : Char} {text before after : List Char} :
    splitFirst separator text = some (before, after) ↔
      text = before ++ separator :: after ∧ separator ∉ before := by
  rw [splitFirst]
  constructor
  · intro h
    have hnot := List.head?_dropWhile_not (fun c => decide (c ≠ separator)) text
    have hsplit := List.takeWhile_append_dropWhile (p := fun c => decide (c ≠ separator)) (l := text)
    have hbefore : separator ∉ text.takeWhile (fun c => decide (c ≠ separator)) :=
      fun hmem => by simpa using List.mem_takeWhile_imp hmem
    split at h
    · cases h
    next c rest hdropped =>
      rw [hdropped] at hnot hsplit
      have hc : c = separator := by simpa using hnot
      subst hc
      cases h
      exact ⟨hsplit.symm, hbefore⟩
  · rintro ⟨rfl, hbefore⟩
    have hall : ∀ c ∈ before, decide (c ≠ separator) = true := by
      intro c hc
      refine decide_eq_true ?_
      rintro rfl
      exact hbefore hc
    rw [List.dropWhile_append_of_pos hall, List.takeWhile_append_of_pos hall]
    simp

theorem splitLast_eq_some_iff {separator : Char} {text before after : List Char} :
    splitLast separator text = some (before, after) ↔
      text = before ++ separator :: after ∧ separator ∉ after := by
  have hrev : text = before ++ separator :: after ↔
      text.reverse = after.reverse ++ separator :: before.reverse := by
    rw [← List.reverse_inj]
    simp
  have hmem : separator ∉ after ↔ separator ∉ after.reverse := not_congr List.mem_reverse.symm
  rw [hrev, hmem, ← splitFirst_eq_some_iff, splitLast]
  cases splitFirst separator text.reverse with
  | none => simp
  | some r =>
    rw [Option.map_some, Option.some_inj, Option.some_inj, Prod.mk.injEq, Prod.ext_iff,
      List.reverse_eq_iff, List.reverse_eq_iff]
    exact and_comm

theorem splitBody_eq_ok_iff {body hex host portStr : List Char} :
    splitBody body = .ok (hex, host, portStr) ↔ body = hex ++ '@' :: (host ++ ':' :: portStr) ∧
      '@' ∉ hex ∧ '@' ∉ host ++ ':' :: portStr ∧ ':' ∉ host ∧ ':' ∉ portStr := by
  rw [splitBody]
  constructor
  · intro h
    split at h
    · cases h
    next hex' hostPort hfirst =>
      obtain ⟨rfl, hhex⟩ := splitFirst_eq_some_iff.mp hfirst
      split at h
      · cases h
      next hat =>
        split at h
        · cases h
        next host' portStr' hlast =>
          obtain ⟨rfl, hport⟩ := splitLast_eq_some_iff.mp hlast
          split at h
          · cases h
          next hhost =>
            cases h
            exact ⟨rfl, hhex, hat, hhost, hport⟩
  · rintro ⟨rfl, hhex, hat, hhost, hport⟩
    have hfirst : splitFirst '@' (hex ++ '@' :: (host ++ ':' :: portStr)) =
        some (hex, host ++ ':' :: portStr) := splitFirst_eq_some_iff.mpr ⟨rfl, hhex⟩
    have hlast : splitLast ':' (host ++ ':' :: portStr) = some (host, portStr) :=
      splitLast_eq_some_iff.mpr ⟨rfl, hport⟩
    rw [hfirst]
    dsimp only
    rw [if_neg hat, hlast]
    exact if_neg hhost

/-! ## Scheme -/

section

variable {T : CardTables}
  (hmapped : ∀ text : List Char, (∀ c ∈ text, 0x20 ≤ c.toNat ∧ c.toNat ≤ 0x7E) →
    T.isCompatibilityMapped text = true)
include hmapped

theorem bodyOf_eq_ok_iff {raw body : List Char} : bodyOf T raw = .ok body ↔ utf8Count raw ≤ 4096 ∧
    (∀ c ∈ trimming T.isBlank raw, 0x20 ≤ c.toNat ∧ c.toNat ≤ 0x7E) ∧
      trimming T.isBlank raw = scheme ++ body := by
  rw [bodyOf]
  generalize trimming T.isBlank raw = trimmed
  have hprintable : (trimmed.any fun c => c.toNat < 0x20 || c.toNat > 0x7E) = true ↔
      ¬ ∀ c ∈ trimmed, 0x20 ≤ c.toNat ∧ c.toNat ≤ 0x7E := by
    rw [List.any_eq_true]
    simp only [Bool.or_eq_true, decide_eq_true_eq, not_forall]
    constructor
    · rintro ⟨c, hc, hbad⟩
      exact ⟨c, hc, by omega⟩
    · rintro ⟨c, hc, hbad⟩
      exact ⟨c, hc, by omega⟩
  constructor
  · intro h
    split at h
    · cases h
    next hlong =>
      dsimp only at h
      split at h
      · cases h
      · split at h
        · cases h
        · split at h
          · cases h
          next hclean =>
            split at h
            · cases h
            next hscheme =>
              cases h
              have hstart : scheme <+: trimmed := by
                rwa [Bool.not_eq_true', Bool.not_eq_false, List.isPrefixOf_iff_prefix] at hscheme
              refine ⟨Nat.not_lt.mp hlong, ?_, (List.prefix_iff_eq_append.mp hstart).symm⟩
              by_contra hnot
              exact hclean (hprintable.mpr hnot)
  · rintro ⟨hshort, hclean, rfl⟩
    have hne : scheme ++ body ≠ [] := by
      intro hnil
      cases (List.append_eq_nil_iff.mp hnil).1
    have hstart : ¬ (!scheme.isPrefixOf (scheme ++ body)) = true := by
      rw [Bool.not_eq_true', Bool.not_eq_false, List.isPrefixOf_iff_prefix]
      exact List.prefix_append _ _
    rw [if_neg (Nat.not_lt.mpr hshort)]
    dsimp only
    rw [if_neg hne, hmapped _ hclean, if_neg (by decide), if_neg fun h => hprintable.mp h hclean,
      if_neg hstart, List.drop_left]

end

/-! ## Numbers -/

/-- What the two number parsers do with an ASCII character. -/
theorem ascii_digits {c : Char} (hc : c.toNat < 128) :
    digitValue 16 c.toLower = digitValue 16 c ∧ ((digitValue 16 c).isSome ↔ c ∈ hexDigits) ∧
      (c.toLower = '+' ↔ c = '+') ∧ (c.toLower = '-' ↔ c = '-') ∧
        (digitValue 16 c = some 0 ↔ c = '0') ∧ ((digitValue 10 c).isSome ↔ c.isDigit) ∧
          (c.isDigit → (digitValue 10 c).getD 0 = c.toNat - '0'.toNat) := by
  refine forall_ascii (P := fun c => digitValue 16 c.toLower = digitValue 16 c ∧
    ((digitValue 16 c).isSome ↔ c ∈ hexDigits) ∧ (c.toLower = '+' ↔ c = '+') ∧
      (c.toLower = '-' ↔ c = '-') ∧ (digitValue 16 c = some 0 ↔ c = '0') ∧
        ((digitValue 10 c).isSome ↔ c.isDigit) ∧
          (c.isDigit → (digitValue 10 c).getD 0 = c.toNat - '0'.toNat)) ?_ hc
  decide +kernel

theorem hexValue_lt (c : Char) : hexValue c < 16 := by
  rw [hexValue]
  cases hdigit : digitValue 16 c with
  | none => decide
  | some d => exact digitValue_lt hdigit

/-- A pair of characters is read as a byte when it is two digits, or a sign and a digit. -/
theorem parse_pair {a b : Char} (ha : a.toNat < 128) (hb : b.toNat < 128) {n : Nat} :
    parseUnsigned 256 16 [a.toLower, b.toLower] = some n ↔
      (HexPair (a, b) ∨ SignedPair (a, b)) ∧ n = hexValue a * 16 + hexValue b := by
  obtain ⟨hlowA, hexA, hplus, hminus, -⟩ := ascii_digits ha
  obtain ⟨hlowB, hexB, -, -, hzero, -⟩ := ascii_digits hb
  have hvalue : valueOf 16 0 [a.toLower, b.toLower] = hexValue a * 16 + hexValue b := by
    rw [valueOf_cons, valueOf_cons, hlowA, hlowB, Nat.zero_mul, Nat.zero_add]
    rfl
  have hone : valueOf 16 0 [b.toLower] = hexValue b := by
    rw [valueOf_cons, hlowB, Nat.zero_mul, Nat.zero_add]
    rfl
  have hltA := hexValue_lt a
  have hltB := hexValue_lt b
  have hplusValue : hexValue '+' = 0 := rfl
  have hminusValue : hexValue '-' = 0 := rfl
  have hzeroValue : hexValue '0' = 0 := rfl
  rw [parseUnsigned_eq_some_iff (by decide) (by decide)]
  constructor
  · rintro (⟨hdigits, rfl, -⟩ | ⟨digits, heq, hdigits, rfl, -⟩ | ⟨digits, heq, -, hzeros, rfl⟩)
    · have hmemA := hdigits.2 a.toLower (by simp)
      have hmemB := hdigits.2 b.toLower (by simp)
      rw [hlowA, hexA] at hmemA
      rw [hlowB, hexB] at hmemB
      exact ⟨.inl ⟨hmemA, hmemB⟩, hvalue⟩
    · obtain ⟨ha', rfl⟩ := List.cons.inj heq
      have hmemB := hdigits.2 b.toLower (by simp)
      rw [hlowB, hexB] at hmemB
      have hsign := hplus.mp ha'
      subst hsign
      exact ⟨.inr (.inl ⟨rfl, hmemB⟩), by rw [hone, hplusValue]; omega⟩
    · obtain ⟨ha', rfl⟩ := List.cons.inj heq
      have hzeroB := hzeros b.toLower (by simp)
      rw [hlowB, hzero] at hzeroB
      have hsign := hminus.mp ha'
      subst hsign hzeroB
      exact ⟨.inr (.inr ⟨rfl, rfl⟩), by rw [hminusValue, hzeroValue]⟩
  · rintro ⟨⟨hmemA, hmemB⟩ | ⟨hsign, hmemB⟩ | ⟨hsign, hzeroB⟩, rfl⟩
    · refine .inl ⟨⟨by simp, ?_⟩, hvalue, by omega⟩
      simp only [List.forall_mem_cons, hlowA, hlowB, hexA, hexB]
      exact ⟨hmemA, hmemB, fun c hc => absurd hc List.not_mem_nil⟩
    · dsimp only at hsign hmemB
      subst hsign
      refine .inr (.inl ⟨[b.toLower], rfl, ⟨by simp, ?_⟩, ?_, by omega⟩)
      · simp only [List.forall_mem_cons, hlowB, hexB]
        exact ⟨hmemB, fun c hc => absurd hc List.not_mem_nil⟩
      · rw [hone, hplusValue]
        omega
    · dsimp only at hsign hzeroB
      subst hsign hzeroB
      exact .inr (.inr ⟨['0'], rfl, by simp, List.all_iff_forall_prop.mp (by decide), rfl⟩)

theorem hexText_cons (p : Char × Char) (pairs : List (Char × Char)) :
    hexText (p :: pairs) = p.1 :: p.2 :: hexText pairs := rfl

theorem length_hexText (pairs : List (Char × Char)) : (hexText pairs).length = 2 * pairs.length := by
  induction pairs with
  | nil => rfl
  | cons p pairs ih =>
    rw [hexText_cons, List.length_cons, List.length_cons, List.length_cons, ih]
    omega

theorem forall_mem_hexText {P : Char → Prop} {pairs : List (Char × Char)} :
    (∀ c ∈ hexText pairs, P c) ↔ ∀ p ∈ pairs, P p.1 ∧ P p.2 := by
  induction pairs with
  | nil =>
    exact ⟨fun _ p hp => absurd hp List.not_mem_nil, fun _ c hc => absurd hc List.not_mem_nil⟩
  | cons p pairs ih =>
    rw [hexText_cons, List.forall_mem_cons, List.forall_mem_cons, List.forall_mem_cons, ih, and_assoc]

/-- A text of even length is made of pairs. -/
theorem exists_hexText {n : Nat} : ∀ {hex : List Char}, hex.length = 2 * n →
    ∃ pairs, hex = hexText pairs ∧ pairs.length = n := by
  induction n with
  | zero =>
    intro hex h
    exact ⟨[], List.eq_nil_of_length_eq_zero h, rfl⟩
  | succ n ih =>
    intro hex h
    match hex with
    | [] => cases h
    | [_] =>
      rw [List.length_singleton] at h
      omega
    | a :: b :: rest =>
      rw [List.length_cons, List.length_cons] at h
      obtain ⟨pairs, rfl, hlen⟩ := @ih rest (by omega)
      exact ⟨(a, b) :: pairs, rfl, by rw [List.length_cons, hlen]⟩

theorem readBytes_eq_some_iff {pairs : List (Char × Char)}
    (hascii : ∀ p ∈ pairs, p.1.toNat < 128 ∧ p.2.toNat < 128) {bytes : Bytes} :
    readBytes ((hexText pairs).map Char.toLower) = some bytes ↔
      (∀ p ∈ pairs, HexPair p ∨ SignedPair p) ∧ bytes = pairs.map pairByte := by
  induction pairs generalizing bytes with
  | nil =>
    show some [] = some bytes ↔ _
    rw [Option.some_inj, eq_comm]
    exact (and_iff_right fun p hp => absurd hp List.not_mem_nil).symm
  | cons p pairs ih =>
    obtain ⟨⟨ha, hb⟩, hrest⟩ := List.forall_mem_cons.mp hascii
    have hread : readBytes ((hexText (p :: pairs)).map Char.toLower) =
        (parseUnsigned 256 16 [p.1.toLower, p.2.toLower]).bind fun byte =>
          (readBytes ((hexText pairs).map Char.toLower)).bind fun bytes =>
            some (UInt8.ofNat byte :: bytes) := rfl
    rw [hread, Option.bind_eq_some_iff, List.forall_mem_cons, List.map_cons]
    constructor
    · rintro ⟨byte, hbyte, hbytes⟩
      obtain ⟨hpair, rfl⟩ := (parse_pair ha hb).mp hbyte
      obtain ⟨later, hlater, heq⟩ := Option.bind_eq_some_iff.mp hbytes
      obtain ⟨hpairs, rfl⟩ := (ih hrest).mp hlater
      exact ⟨⟨hpair, hpairs⟩, (Option.some.inj heq).symm⟩
    · rintro ⟨⟨hpair, hpairs⟩, rfl⟩
      refine ⟨_, (parse_pair ha hb).mpr ⟨hpair, rfl⟩, ?_⟩
      rw [(ih hrest).mpr ⟨hpairs, rfl⟩]
      rfl

theorem readPeerId_eq_ok_iff {hex : List Char} (hascii : ∀ c ∈ hex, c.toNat < 128) {bytes : Bytes} :
    readPeerId hex = .ok bytes ↔ ∃ pairs, hex = hexText pairs ∧ pairs.length = 33 ∧
      (∀ p ∈ pairs, HexPair p ∨ SignedPair p) ∧
      ((hexText pairs).map Char.toLower = hexText pairs ∨ ∀ p ∈ pairs, HexPair p) ∧
      bytes = pairs.map pairByte ∧ bytes.head? = some 0x05 ∧ ¬ ∃ first, ∀ b ∈ bytes, b = first := by
  have hkey : ∀ {bytes : Bytes}, bytes.head? = some 0x05 →
      ((∃ first, ∀ b ∈ bytes, b = first) ↔ ∃ first ∈ bytes.head?, ∀ b ∈ bytes, b = first) := by
    intro bytes hhead
    constructor
    · rintro ⟨first, hall⟩
      have hfirst : (0x05 : UInt8) = first := hall _ (List.mem_of_head? hhead)
      exact ⟨first, by rw [hhead, hfirst]; rfl, hall⟩
    · rintro ⟨first, -, hall⟩
      exact ⟨first, hall⟩
  simp only [readPeerId, List.length_map]
  constructor
  · intro h
    split at h
    · cases h
    next hlen =>
      obtain ⟨pairs, rfl, hpairs⟩ := exists_hexText (n := 33) (not_not.mp hlen)
      rw [forall_mem_hexText] at hascii
      split at h
      · cases h
      next hcase =>
        split at h
        · cases h
        next read hread =>
          obtain ⟨hok, rfl⟩ := (readBytes_eq_some_iff hascii).mp hread
          split at h
          · cases h
          · split at h
            · cases h
            next hsame =>
              split at h
              · cases h
              next htype =>
                cases h
                have hhead := not_not.mp htype
                refine ⟨pairs, rfl, hpairs, hok, ?_, rfl, hhead, fun hany => hsame ((hkey hhead).mp hany)⟩
                rw [not_and_or, not_not, not_not, forall_mem_hexText] at hcase
                exact hcase
  · rintro ⟨pairs, rfl, hpairs, hok, hcase, rfl, hhead, hentropy⟩
    rw [forall_mem_hexText] at hascii
    have hlen : ¬ (hexText pairs).length ≠ 66 := by
      rw [length_hexText, hpairs]
      decide
    have hletters : ¬ ((hexText pairs).map Char.toLower ≠ hexText pairs ∧
        ¬ ∀ c ∈ hexText pairs, c ∈ hexDigits) := by
      rw [forall_mem_hexText, not_and_or, not_not, not_not]
      exact hcase
    rw [if_neg hlen, if_neg hletters, (readBytes_eq_some_iff hascii).mpr ⟨hok, rfl⟩]
    dsimp only
    rw [if_neg fun hzero => hentropy ⟨0, hzero⟩, if_neg fun hany => hentropy ((hkey hhead).mpr hany),
      if_neg (not_not_intro hhead)]

theorem valueOf_ten {digits : List Char} (h : ∀ c ∈ digits, c.isDigit) : ∀ (acc : Nat),
    valueOf 10 acc digits = Nat.ofDigitChars 10 digits acc := by
  induction digits with
  | nil => exact fun _ => rfl
  | cons c digits ih =>
    intro acc
    obtain ⟨hc, hrest⟩ := List.forall_mem_cons.mp h
    have hlt : c.toNat < 128 := by
      have hrange : 48 ≤ c.toNat ∧ c.toNat ≤ 57 := Char.isDigit_iff_toNat.mp hc
      omega
    obtain ⟨-, -, -, -, -, -, hvalue⟩ := ascii_digits hlt
    rw [valueOf_cons, hvalue hc, Nat.ofDigitChars_cons, ih hrest, Nat.mul_comm]

theorem digits_ten_iff {digits : List Char} (hascii : ∀ c ∈ digits, c.toNat < 128) :
    Digits 10 digits ↔ Decimal digits := by
  refine and_congr_right fun _ => forall₂_congr fun c hc => ?_
  obtain ⟨-, -, -, -, -, hdigit, -⟩ := ascii_digits (hascii c hc)
  exact hdigit

/-- A decimal text begins without a sign. -/
theorem Decimal.unsigned_eq {digits : List Char} (h : Decimal digits) : unsigned digits = digits := by
  unfold unsigned
  split
  · next rest =>
    have hplus := h.2 '+' List.mem_cons_self
    exact absurd hplus (by decide)
  · rfl

theorem readPort_eq_ok_iff {portStr : List Char} (hascii : ∀ c ∈ portStr, c.toNat < 128)
    {port : UInt16} : readPort portStr = .ok port ↔ Decimal (unsigned portStr) ∧
      Nat.ofDigitChars 10 (unsigned portStr) 0 = port.toNat ∧ 0 < port.toNat := by
  have hport : ∀ n : Nat, n < 2 ^ 16 → (UInt16.ofNat n = port ↔ n = port.toNat) := by
    intro n hn
    constructor
    · rintro rfl
      exact (UInt16.toNat_ofNat_of_lt' hn).symm
    · rintro rfl
      exact UInt16.ofNat_toNat
  -- the value that is read, if it is not a zero behind a minus sign
  have hread : ∀ {n : Nat}, 0 < n → (parseUnsigned (2 ^ 16) 10 portStr = some n ↔
      Decimal (unsigned portStr) ∧ Nat.ofDigitChars 10 (unsigned portStr) 0 = n ∧ n < 2 ^ 16) := by
    intro n hn
    rw [parseUnsigned_eq_some_iff (by decide) (by decide)]
    constructor
    · rintro (⟨hdigits, hvalue, hlt⟩ | ⟨digits, rfl, hdigits, hvalue, hlt⟩ | ⟨-, -, -, -, rfl⟩)
      · have hdecimal := (digits_ten_iff hascii).mp hdigits
        rw [hdecimal.unsigned_eq, ← valueOf_ten hdecimal.2]
        exact ⟨hdecimal, hvalue, hlt⟩
      · have hdecimal := (digits_ten_iff (List.forall_mem_cons.mp hascii).2).mp hdigits
        show Decimal digits ∧ Nat.ofDigitChars 10 digits 0 = n ∧ _
        rw [← valueOf_ten hdecimal.2]
        exact ⟨hdecimal, hvalue, hlt⟩
      · cases hn
    · rintro ⟨hdecimal, hvalue, hlt⟩
      rw [← valueOf_ten hdecimal.2] at hvalue
      unfold unsigned at hdecimal hvalue
      split at hdecimal
      · next digits =>
        have hdigits := (digits_ten_iff (List.forall_mem_cons.mp hascii).2).mpr hdecimal
        exact .inr (.inl ⟨digits, rfl, hdigits, hvalue, hlt⟩)
      · next hplus =>
        refine .inl ⟨(digits_ten_iff hascii).mpr hdecimal, ?_, hlt⟩
        split at hvalue
        · next digits => exact absurd rfl (hplus digits)
        · exact hvalue
  simp only [readPort]
  constructor
  · intro h
    split at h
    · cases h
    next n hn =>
      split at h
      · next hpos =>
        obtain ⟨hdecimal, hvalue, hlt⟩ := (hread hpos).mp hn
        have hsame := (hport n hlt).mp (Except.ok.inj h)
        exact ⟨hdecimal, hvalue.trans hsame, by rw [← hsame]; exact hpos⟩
      · cases h
  · rintro ⟨hdecimal, hvalue, hpos⟩
    have hn := (hread hpos).mpr ⟨hdecimal, hvalue, port.toNat_lt⟩
    rw [hn]
    dsimp only
    rw [if_pos hpos, UInt16.ofNat_toNat]

/-! ## What is accepted -/

theorem hexDigits_ascii {c : Char} (h : c ∈ hexDigits) : 0x20 ≤ c.toNat ∧ c.toNat ≤ 0x7E :=
  have hall : ∀ c ∈ hexDigits, 0x20 ≤ c.toNat ∧ c.toNat ≤ 0x7E :=
    List.all_iff_forall_prop.mp (by decide)
  hall c h

theorem separators_notMem_pairs {pairs : List (Char × Char)}
    (hok : ∀ p ∈ pairs, HexPair p ∨ SignedPair p) : '@' ∉ hexText pairs := by
  have hclean : ∀ c ∈ hexText pairs, c ≠ '@' := by
    rw [forall_mem_hexText]
    have hhex : ∀ c ∈ hexDigits, c ≠ '@' := List.all_iff_forall_prop.mp (by decide)
    rintro p hp
    rcases hok p hp with ⟨h1, h2⟩ | ⟨h1, h2⟩ | ⟨h1, h2⟩
    · exact ⟨hhex _ h1, hhex _ h2⟩
    · exact ⟨by rw [h1]; decide, hhex _ h2⟩
    · exact ⟨by rw [h1]; decide, by rw [h2]; decide⟩
  exact fun hmem => hclean '@' hmem rfl

theorem separators_notMem_port {port : List Char} (h : Decimal (unsigned port)) :
    '@' ∉ port ∧ ':' ∉ port := by
  have hclean : ∀ c ∈ port, c.isDigit ∨ c = '+' := by
    unfold unsigned at h
    split at h
    · next digits =>
      rw [List.forall_mem_cons]
      exact ⟨.inr rfl, fun c hc => .inl (h.2 c hc)⟩
    · exact fun c hc => .inl (h.2 c hc)
  constructor
  · intro hmem
    rcases hclean _ hmem with hdigit | heq
    · exact absurd hdigit (by decide)
    · exact absurd heq (by decide)
  · intro hmem
    rcases hclean _ hmem with hdigit | heq
    · exact absurd hdigit (by decide)
    · exact absurd heq (by decide)

/-- The text stands for the card, with or without signs. -/
def Read (text : List Char) (card : ContactCard) : Prop :=
  ∃ pairs port, CardText text pairs port card ∧ (∀ p ∈ pairs, HexPair p ∨ SignedPair p) ∧
    ((hexText pairs).map Char.toLower = hexText pairs ∨ ∀ p ∈ pairs, HexPair p) ∧
    Decimal (unsigned port)

theorem bind_eq_ok_iff {ε α β : Type} {x : Except ε α} {f : α → Except ε β} {b : β} :
    (x >>= f) = .ok b ↔ ∃ a, x = .ok a ∧ f a = .ok b := by
  cases x with
  | error e => exact iff_of_false (fun h => by cases h) fun ⟨_, h, _⟩ => by cases h
  | ok a => exact ⟨fun h => ⟨a, rfl, h⟩, fun ⟨_, h, hf⟩ => Except.ok.inj h ▸ hf⟩

theorem validate_eq_ok_iff {T : CardTables}
    (hmapped : ∀ text : List Char, (∀ c ∈ text, 0x20 ≤ c.toNat ∧ c.toNat ≤ 0x7E) →
      T.isCompatibilityMapped text = true) {raw : List Char} {card : ContactCard} :
    validate T raw = .ok card ↔
      utf8Count raw ≤ 4096 ∧ Read (trimming T.isBlank raw) card := by
  have hascii : ∀ {text part : List Char}, (∀ c ∈ text, 0x20 ≤ c.toNat ∧ c.toNat ≤ 0x7E) →
      (∀ c ∈ part, c ∈ text) → ∀ c ∈ part, c.toNat < 128 := by
    intro text part htext hpart c hc
    have hrange := htext c (hpart c hc)
    omega
  rw [validate, bind_eq_ok_iff]
  constructor
  · rintro ⟨body, hbody, hrest⟩
    obtain ⟨hshort, hprintable, htext⟩ := (bodyOf_eq_ok_iff hmapped).mp hbody
    obtain ⟨⟨hex, host, portStr⟩, hsplit, hfields⟩ := bind_eq_ok_iff.mp hrest
    obtain ⟨rfl, -, hat, hcolon, -⟩ := splitBody_eq_ok_iff.mp hsplit
    obtain ⟨peerId, hpeer, hnumber⟩ := bind_eq_ok_iff.mp hfields
    obtain ⟨port, hport, hcard⟩ := bind_eq_ok_iff.mp hnumber
    have hhex : ∀ c ∈ hex, c.toNat < 128 := hascii hprintable fun c hc => by
      rw [htext]
      simp [hc]
    have hdigits : ∀ c ∈ portStr, c.toNat < 128 := hascii hprintable fun c hc => by
      rw [htext]
      simp [hc]
    obtain ⟨pairs, rfl, hlen, hok, hcase, rfl, hhead, hentropy⟩ := (readPeerId_eq_ok_iff hhex).mp hpeer
    obtain ⟨hdecimal, hvalue, hpos⟩ := (readPort_eq_ok_iff hdigits).mp hport
    cases hcard
    refine ⟨hshort, pairs, portStr, ?_, hok, hcase, hdecimal⟩
    refine ⟨hprintable, ?_, hlen, ⟨fun hmem => hat ?_, hcolon⟩, rfl, hhead, hentropy, hvalue, hpos⟩
    · rw [htext, List.append_assoc]
    · exact List.mem_append_left _ hmem
  · rintro ⟨hshort, pairs, port, hcard, hok, hcase, hdecimal⟩
    have hhex : ∀ c ∈ hexText pairs, c.toNat < 128 := hascii hcard.printable fun c hc => by
      rw [hcard.text_eq]
      simp [hc]
    have hdigits : ∀ c ∈ port, c.toNat < 128 := hascii hcard.printable fun c hc => by
      rw [hcard.text_eq]
      simp [hc]
    obtain ⟨hatPort, hcolonPort⟩ := separators_notMem_port hdecimal
    have hat : '@' ∉ card.host ++ ':' :: port := by
      rw [List.mem_append, List.mem_cons]
      rintro (hmem | heq | hmem)
      · exact hcard.host.1 hmem
      · exact absurd heq (by decide)
      · exact hatPort hmem
    refine ⟨_, (bodyOf_eq_ok_iff hmapped).mpr ⟨hshort, hcard.printable,
      hcard.text_eq.trans (List.append_assoc _ _ _)⟩, bind_eq_ok_iff.mpr ⟨_,
        splitBody_eq_ok_iff.mpr ⟨rfl, separators_notMem_pairs hok, hat, hcard.host.2, hcolonPort⟩,
        bind_eq_ok_iff.mpr ⟨card.peerId, ?_, bind_eq_ok_iff.mpr ⟨card.port, ?_, rfl⟩⟩⟩⟩
    · exact (readPeerId_eq_ok_iff hhex).mpr
        ⟨pairs, rfl, hcard.length, hok, hcase, hcard.peerId, hcard.keyType, hcard.entropy⟩
    · exact (readPort_eq_ok_iff hdigits).mpr ⟨hdecimal, hcard.port, hcard.port_pos⟩

/-! ## The encoded card -/

/-- The two digits of `%02x`. -/
def hexPair (b : UInt8) : Char × Char :=
  ("0123456789abcdef".toList.getD (b.toNat / 16) '0', "0123456789abcdef".toList.getD (b.toNat % 16) '0')

theorem hexPair_spec : ∀ b : UInt8, HexPair (hexPair b) ∧ pairByte (hexPair b) = b :=
  forall_byte (by
    unfold HexPair
    decide +kernel)

theorem encoded_eq (card : ContactCard) : card.encoded =
    scheme ++ hexText (card.peerId.map hexPair) ++
      '@' :: (card.host ++ ':' :: Nat.toDigits 10 card.port.toNat) := by
  have hbyte : ∀ b : UInt8, (hexByte b).toList = [(hexPair b).1, (hexPair b).2] :=
    fun b => String.toList_ofList
  rw [ContactCard.encoded, hexText, List.flatMap_map]
  simp only [hbyte]

theorem toDigits_decimal (n : Nat) : Decimal (Nat.toDigits 10 n) :=
  ⟨Nat.toDigits_ne_nil, fun _ hc => Nat.isDigit_of_mem_toDigits (by decide) (by decide) hc⟩

theorem utf8Count_append (a b : List Char) : utf8Count (a ++ b) = utf8Count a + utf8Count b := by
  rw [utf8Count, List.map_append, List.sum_append, utf8Count, utf8Count]

theorem utf8Count_ascii {text : List Char} (h : ∀ c ∈ text, c.toNat < 128) :
    utf8Count text = text.length := by
  induction text with
  | nil => rfl
  | cons c text ih =>
    obtain ⟨hc, hrest⟩ := List.forall_mem_cons.mp h
    have hsize : c.utf8Size = 1 := by
      refine if_pos ?_
      show c.toNat ≤ 127
      omega
    rw [utf8Count, List.map_cons, List.sum_cons, hsize, List.length_cons, Nat.add_comm]
    exact congrArg (· + 1) (ih hrest)

theorem utf8Count_trimming_le (P : Char → Bool) (text : List Char) :
    utf8Count (trimming P text) ≤ utf8Count text := by
  obtain ⟨before, after, heq⟩ := trimming_isInfix P text
  conv_rhs => rw [← heq, utf8Count_append, utf8Count_append]
  omega

/-- Digits that denote a number are at least as many as it needs. -/
theorem ofDigitChars_lt {digits : List Char} (h : ∀ c ∈ digits, c.isDigit) :
    Nat.ofDigitChars 10 digits 0 < 10 ^ digits.length := by
  induction digits with
  | nil => decide
  | cons c digits ih =>
    obtain ⟨hc, hrest⟩ := List.forall_mem_cons.mp h
    have hrange : 48 ≤ c.toNat ∧ c.toNat ≤ 57 := Char.isDigit_iff_toNat.mp hc
    have hzero : '0'.toNat = 48 := rfl
    have hlt := ih hrest
    have hmul : 10 ^ digits.length * (c.toNat - 48) ≤ 10 ^ digits.length * 9 :=
      Nat.mul_le_mul_left _ (by omega)
    rw [Nat.ofDigitChars_cons, Nat.ofDigitChars_eq_ofDigitChars_zero, List.length_cons, Nat.pow_succ,
      hzero, Nat.mul_zero, Nat.zero_add]
    omega

theorem length_toDigits_le {port : List Char} {n : Nat} (h : Decimal (unsigned port))
    (hvalue : Nat.ofDigitChars 10 (unsigned port) 0 = n) :
    (Nat.toDigits 10 n).length ≤ port.length := by
  have hpos : 0 < (unsigned port).length := List.length_pos_of_ne_nil h.1
  have hle : (unsigned port).length ≤ port.length := by
    unfold unsigned
    split
    · exact Nat.le_succ _
    · exact Nat.le_refl _
  refine Nat.le_trans ((Nat.length_toDigits_le_iff (by decide) hpos).mpr ?_) hle
  rw [← hvalue]
  exact ofDigitChars_lt h.2

/-- What is read off a text is encoded as a text that is no longer and is read as the same. -/
theorem Read.encoded {text : List Char} {card : ContactCard} (h : Read text card) :
    Grammar card.encoded card ∧ card.encoded.length ≤ text.length := by
  obtain ⟨pairs, port, hcard, -, -, hdecimal⟩ := h
  have hlen : card.peerId.length = 33 := by rw [hcard.peerId, List.length_map, hcard.length]
  have hdigits := toDigits_decimal card.port.toNat
  refine ⟨⟨card.peerId.map hexPair, Nat.toDigits 10 card.port.toNat, ?_, ?_, hdigits⟩, ?_⟩
  · refine ⟨?_, encoded_eq card, by rw [List.length_map, hlen], hcard.host, ?_, hcard.keyType,
      hcard.entropy, ?_, hcard.port_pos⟩
    · have hscheme : ∀ c ∈ scheme, 0x20 ≤ c.toNat ∧ c.toNat ≤ 0x7E :=
        List.all_iff_forall_prop.mp (by decide)
      have hhex : ∀ c ∈ hexText (card.peerId.map hexPair), 0x20 ≤ c.toNat ∧ c.toNat ≤ 0x7E := by
        rw [forall_mem_hexText]
        intro p hp
        obtain ⟨b, -, rfl⟩ := List.mem_map.mp hp
        exact ⟨hexDigits_ascii (hexPair_spec b).1.1, hexDigits_ascii (hexPair_spec b).1.2⟩
      have hhost : ∀ c ∈ card.host, 0x20 ≤ c.toNat ∧ c.toNat ≤ 0x7E := by
        intro c hc
        refine hcard.printable c ?_
        rw [hcard.text_eq]
        simp [hc]
      have hport : ∀ c ∈ Nat.toDigits 10 card.port.toNat, 0x20 ≤ c.toNat ∧ c.toNat ≤ 0x7E := by
        intro c hc
        have hrange : 48 ≤ c.toNat ∧ c.toNat ≤ 57 := Char.isDigit_iff_toNat.mp (hdigits.2 c hc)
        omega
      rw [encoded_eq]
      simp only [List.forall_mem_append, List.forall_mem_cons]
      exact ⟨⟨hscheme, hhex⟩, by decide, hhost, by decide, hport⟩
    · rw [List.map_map]
      have hid : ∀ b ∈ card.peerId, (pairByte ∘ hexPair) b = b := fun b _ => (hexPair_spec b).2
      rw [List.map_congr_left hid, List.map_id']
    · rw [hdigits.unsigned_eq, Nat.ofDigitChars_ten_toDigits]
  · intro p hp
    obtain ⟨b, -, rfl⟩ := List.mem_map.mp hp
    exact (hexPair_spec b).1
  · have hport := length_toDigits_le hdecimal hcard.port
    rw [encoded_eq, hcard.text_eq]
    simp only [List.length_append, List.length_cons, length_hexText, List.length_map, hlen,
      hcard.length]
    omega

/-- A card in the grammar is read. -/
theorem Grammar.read {text : List Char} {card : ContactCard} (h : Grammar text card) :
    Read text card := by
  obtain ⟨pairs, port, hcard, hhex, hdecimal⟩ := h
  exact ⟨pairs, port, hcard, fun p hp => .inl (hhex p hp), .inr hhex, by rwa [hdecimal.unsigned_eq]⟩

theorem hexText_injective : ∀ {pairs pairs' : List (Char × Char)},
    hexText pairs = hexText pairs' → pairs = pairs'
  | [], [], _ => rfl
  | [], p :: _, h => by rw [hexText_cons] at h; cases h
  | p :: _, [], h => by rw [hexText_cons] at h; cases h
  | p :: pairs, p' :: pairs', h => by
    rw [hexText_cons, hexText_cons] at h
    obtain ⟨hfst, hrest⟩ := List.cons.inj h
    obtain ⟨hsnd, hpairs⟩ := List.cons.inj hrest
    rw [Prod.ext hfst hsnd, hexText_injective hpairs]

/-- There is one way to cut a text into pairs, host and port. -/
theorem CardText.unique {text : List Char} {pairs pairs' : List (Char × Char)} {port port' : List Char}
    {card card' : ContactCard} (h : CardText text pairs port card)
    (h' : CardText text pairs' port' card') (hport : ':' ∉ port) (hport' : ':' ∉ port') :
    pairs = pairs' ∧ port = port' := by
  have heq := h.text_eq.symm.trans h'.text_eq
  have hlen : (scheme ++ hexText pairs).length = (scheme ++ hexText pairs').length := by
    simp only [List.length_append, length_hexText, h.length, h'.length]
  obtain ⟨hhex, hrest⟩ := List.append_inj heq hlen
  have hhostPort := List.cons.inj hrest
  have hlast : splitLast ':' (card.host ++ ':' :: port) = some (card.host, port) :=
    splitLast_eq_some_iff.mpr ⟨rfl, hport⟩
  have hlast' : splitLast ':' (card.host ++ ':' :: port) = some (card'.host, port') :=
    splitLast_eq_some_iff.mpr ⟨hhostPort.2, hport'⟩
  refine ⟨hexText_injective (List.append_cancel_left hhex), ?_⟩
  exact congrArg Prod.snd (Option.some.inj (hlast.symm.trans hlast'))

/-- A text with a sign is not in the grammar. -/
theorem SignedCard.not_grammar {text : List Char} (h : SignedCard text) (card : ContactCard) :
    ¬ Grammar text card := by
  rintro ⟨pairs', port', hcard', hhex, hdecimal⟩
  obtain ⟨pairs, port, card, hcard, -, -, hport, hsign⟩ := h
  have hport' : Decimal (unsigned port') := by rwa [hdecimal.unsigned_eq]
  obtain ⟨rfl, rfl⟩ := hcard.unique hcard' (separators_notMem_port hport).2
    (separators_notMem_port hport').2
  rcases hsign with ⟨p, hp, hsigned⟩ | hplus
  · have hnot : '+' ∉ hexDigits ∧ '-' ∉ hexDigits := by decide
    rcases hsigned with ⟨hfst, -⟩ | ⟨hfst, -⟩
    · exact hnot.1 (hfst ▸ (hhex p hp).1)
    · exact hnot.2 (hfst ▸ (hhex p hp).1)
  · have hdigit := hdecimal.2 '+' (List.mem_of_head? hplus)
    exact absurd hdigit (by decide)

/-- What is read is in the grammar, or has a sign. -/
theorem Read.grammar_or_signed {text : List Char} {card : ContactCard} (h : Read text card) :
    Grammar text card ∨ SignedCard text := by
  obtain ⟨pairs, port, hcard, hok, hcase, hdecimal⟩ := h
  by_cases hsign : (∃ p ∈ pairs, SignedPair p) ∨ port.head? = some '+'
  · exact .inr ⟨pairs, port, card, hcard, hok, hcase, hdecimal, hsign⟩
  · rw [not_or] at hsign
    refine .inl ⟨pairs, port, hcard, fun p hp => ?_, ?_⟩
    · exact (hok p hp).resolve_right fun hsigned => hsign.1 ⟨p, hp, hsigned⟩
    · unfold unsigned at hdecimal
      split at hdecimal
      · exact absurd rfl hsign.2
      · exact hdecimal

/-! ## `validate` and the grammar -/

/-- On `raw`, `validate` accepts exactly a card of the grammar, returns what stands in it, and
reads back what the result is encoded as. -/
structure ReadsGrammar (T : CardTables) (raw : List Char) : Prop where
  accepts : (∃ card, validate T raw = .ok card) ↔
    utf8Count raw ≤ 4096 ∧ ∃ card, Grammar (trimming T.isBlank raw) card
  returns : ∀ card, validate T raw = .ok card → Grammar (trimming T.isBlank raw) card
  again : ∀ card, validate T raw = .ok card → validate T card.encoded = .ok card

section

variable {T : CardTables}
  (hblank : ∀ c : Char, 0x21 ≤ c.toNat → c.toNat ≤ 0x7E → T.isBlank c = false)
  (hmapped : ∀ text : List Char, (∀ c ∈ text, 0x20 ≤ c.toNat ∧ c.toNat ≤ 0x7E) →
    T.isCompatibilityMapped text = true)
include hblank

/-- No blank stands at an end of an encoded card. -/
theorem trimming_encoded (card : ContactCard) : trimming T.isBlank card.encoded = card.encoded := by
  have hhead : card.encoded.head?.any T.isBlank = false := hblank 'p' (by decide) (by decide)
  rw [trimming_eq_self_iff hhead, encoded_eq]
  have hdigits := toDigits_decimal card.port.toNat
  have hlast : (scheme ++ hexText (card.peerId.map hexPair) ++
      '@' :: (card.host ++ ':' :: Nat.toDigits 10 card.port.toNat)).getLast? =
        (Nat.toDigits 10 card.port.toNat).getLast? := by
    rw [List.getLast?_append_of_ne_nil _ (List.cons_ne_nil _ _), ← List.cons_append,
      List.getLast?_append_of_ne_nil _ (List.cons_ne_nil _ _), ← List.singleton_append,
      List.getLast?_append_of_ne_nil _ hdigits.1]
  rw [hlast]
  cases hend : (Nat.toDigits 10 card.port.toNat).getLast? with
  | none => rfl
  | some c =>
    have hrange : 48 ≤ c.toNat ∧ c.toNat ≤ 57 :=
      Char.isDigit_iff_toNat.mp (hdigits.2 c (List.mem_of_getLast? hend))
    exact hblank c (by omega) (by omega)

include hmapped

theorem validate_encoded {raw : List Char} {card : ContactCard} (h : validate T raw = .ok card) :
    validate T card.encoded = .ok card := by
  obtain ⟨hshort, hread⟩ := (validate_eq_ok_iff hmapped).mp h
  obtain ⟨hgrammar, hlen⟩ := hread.encoded
  have hprintable : ∀ {text : List Char}, Read text card → ∀ c ∈ text, c.toNat < 128 := by
    rintro text ⟨pairs, port, hcard, -⟩ c hc
    have hrange := hcard.printable c hc
    omega
  have hcount := utf8Count_trimming_le T.isBlank raw
  rw [utf8Count_ascii (hprintable hread)] at hcount
  rw [validate_eq_ok_iff hmapped, trimming_encoded hblank,
    utf8Count_ascii (hprintable hgrammar.read)]
  exact ⟨by omega, hgrammar.read⟩

/-- `validate` accepts exactly the grammar, up to texts with a sign in a number. -/
theorem readsGrammar_iff (raw : List Char) :
    ReadsGrammar T raw ↔ ¬ (utf8Count raw ≤ 4096 ∧ SignedCard (trimming T.isBlank raw)) := by
  have hiff : ∀ card, validate T raw = .ok card ↔
      utf8Count raw ≤ 4096 ∧ Read (trimming T.isBlank raw) card := fun _ => validate_eq_ok_iff hmapped
  constructor
  · rintro h ⟨hshort, hsigned⟩
    obtain ⟨pairs, port, card, hcard, hok, hcase, hdecimal, -⟩ := id hsigned
    have hvalid := (hiff card).mpr ⟨hshort, pairs, port, hcard, hok, hcase, hdecimal⟩
    exact hsigned.not_grammar card (h.returns card hvalid)
  · intro hunsigned
    have hreturns : ∀ card, validate T raw = .ok card → Grammar (trimming T.isBlank raw) card := by
      intro card hvalid
      obtain ⟨hshort, hread⟩ := (hiff card).mp hvalid
      exact hread.grammar_or_signed.resolve_right fun hsigned => hunsigned ⟨hshort, hsigned⟩
    refine ⟨⟨?_, ?_⟩, hreturns, fun card hvalid => validate_encoded hblank hmapped hvalid⟩
    · rintro ⟨card, hvalid⟩
      exact ⟨((hiff card).mp hvalid).1, card, hreturns card hvalid⟩
    · rintro ⟨hshort, card, hgrammar⟩
      exact ⟨card, (hiff card).mpr ⟨hshort, hgrammar.read⟩⟩

end

/-! ## Signs -/

/-- The tables on ASCII texts. -/
def asciiCard : CardTables where
  isBlank c := c = ' ' || c = '\n' || c = '\t' || c = '\r'
  isCompatibilityMapped text := text.all fun c => c.toNat < 128

/-- A card with this text for its port. -/
def sampleCard (port : String) : List Char :=
  "pizzini1://05421b53f999deced2d6c8d3a6bbc24047e17864cf7f82daf2588971f625431059@:".toList ++ port.toList

theorem asciiCard_blank : ∀ c : Char, 0x21 ≤ c.toNat → c.toNat ≤ 0x7E → asciiCard.isBlank c = false := by
  intro c hmin hmax
  refine forall_ascii (P := fun c => 0x21 ≤ c.toNat → asciiCard.isBlank c = false) ?_ (by omega) hmin
  decide +kernel

theorem asciiCard_mapped (text : List Char) (h : ∀ c ∈ text, 0x20 ≤ c.toNat ∧ c.toNat ≤ 0x7E) :
    asciiCard.isCompatibilityMapped text = true := by
  refine List.all_eq_true.mpr fun c hc => decide_eq_true ?_
  have hrange := h c hc
  omega

theorem readsGrammar_sampleCard : ReadsGrammar asciiCard (sampleCard "7777") ↔
    ¬ (utf8Count (sampleCard "7777") ≤ 4096 ∧
      SignedCard (trimming asciiCard.isBlank (sampleCard "7777"))) :=
  readsGrammar_iff asciiCard_blank asciiCard_mapped (sampleCard "7777")

/-- A port with a plus sign is accepted, and no card has it. -/
theorem validate_accepts_plus :
    (validate asciiCard (sampleCard "+7777")).toOption.map ContactCard.port = some 7777 ∧
      ∀ card, ¬ Grammar (trimming asciiCard.isBlank (sampleCard "+7777")) card := by
  refine ⟨by decide +kernel, ?_⟩
  rintro card ⟨pairs, port, hcard, -, hdecimal⟩
  have hport := (separators_notMem_port (hdecimal.unsigned_eq.symm ▸ hdecimal)).2
  have hlast : splitLast ':' (trimming asciiCard.isBlank (sampleCard "+7777")) =
      some (scheme ++ hexText pairs ++ '@' :: card.host, port) := by
    refine splitLast_eq_some_iff.mpr ⟨?_, hport⟩
    rw [hcard.text_eq, List.append_assoc, List.append_assoc, List.append_assoc, List.cons_append]
  have hvalue : (splitLast ':' (trimming asciiCard.isBlank (sampleCard "+7777"))).map Prod.snd =
      some "+7777".toList := by decide +kernel
  rw [hlast, Option.map_some, Option.some_inj] at hvalue
  subst hvalue
  exact absurd (hdecimal.2 '+' (by decide)) (by decide)

end Pizzini.Client
