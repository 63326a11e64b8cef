import Pizzini.Lib.Bytes

/-!
# The protocol buffers wire format

A message is a sequence of fields, each behind a key that gives its number and its wire
type. `parse` reads a whole byte string as the top-level fields of a message, in the
order in which they stand: numbers and lengths are base-128 varints in any encoding of
at most ten bytes, groups are skipped as one field, nothing may be left over.

`lastBytes` is the proto3 rule for a `bytes` field that is not repeated: the last
occurrence wins. `parse_len_cons` takes the first field off a message when that field
is a byte string behind a one-byte key and a one-byte length; `lastBytes_cons_len` says
what this field contributes.
-/

namespace Protobuf

open Wire

/-! ## Varints -/

/-- A base-128 number of at most `k` bytes, low digits first; all bytes but the last have
the top bit set. -/
def takeDigits : Nat → Bytes → Option (Nat × Bytes)
  | 0, _ => none
  | _ + 1, [] => none
  | k + 1, b :: bs =>
    if b.toNat < 128 then some (b.toNat, bs)
    else (takeDigits k bs).map fun r => (b.toNat - 128 + 128 * r.1, r.2)

/-- Split off a varint: at most ten bytes, and a value below `2^64`. -/
def takeVarint (bs : Bytes) : Option (Nat × Bytes) :=
  (takeDigits 10 bs).filter fun r => r.1 < 2 ^ 64

/-- One byte below 128 is a varint. -/
theorem takeVarint_small {b : UInt8} (h : b.toNat < 128) (bs : Bytes) :
    takeVarint (b :: bs) = some (b.toNat, bs) := by
  have hlt : b.toNat < 2 ^ 64 := by omega
  rw [takeVarint, takeDigits, if_pos h, Option.filter_some, if_pos (by simpa using hlt)]

theorem takeDigits_length : ∀ {k : Nat} {bs rest : Bytes} {n : Nat},
    takeDigits k bs = some (n, rest) → rest.length < bs.length
  | 0, bs, rest, n, h => by simp [takeDigits] at h
  | k + 1, [], rest, n, h => by simp [takeDigits] at h
  | k + 1, b :: bs, rest, n, h => by
    rw [takeDigits] at h
    split at h
    · obtain ⟨-, rfl⟩ := Prod.mk.inj (Option.some.inj h)
      simp
    · obtain ⟨⟨n', rest'⟩, hr, heq⟩ := Option.map_eq_some_iff.mp h
      obtain ⟨-, rfl⟩ := Prod.mk.inj heq
      have hlt : rest'.length < bs.length := takeDigits_length hr
      rw [List.length_cons]
      exact Nat.lt_succ_of_lt hlt

theorem takeVarint_length {bs rest : Bytes} {n : Nat} (h : takeVarint bs = some (n, rest)) :
    rest.length < bs.length :=
  takeDigits_length (Option.filter_eq_some_iff.mp h).1

/-! ## Fields -/

/-- What a field carries, by its wire type. -/
inductive Payload where
  | varint (n : Nat)
  | fixed64 (bytes : Bytes)
  | len (bytes : Bytes)
  | startGroup
  | endGroup
  | fixed32 (bytes : Bytes)
deriving DecidableEq

/-- A field number and what it carries. -/
structure Field where
  number : Nat
  payload : Payload
deriving DecidableEq

/-- Split off the payload of wire type `wireType`. -/
def takePayload (wireType : Nat) (bs : Bytes) : Option (Payload × Bytes) :=
  match wireType with
  | 0 => (takeVarint bs).map fun r => (.varint r.1, r.2)
  | 1 => (takeBytes 8 bs).map fun r => (.fixed64 r.1, r.2)
  | 2 => (takeVarint bs).bind fun r => (takeBytes r.1 r.2).map fun r => (.len r.1, r.2)
  | 3 => some (.startGroup, bs)
  | 4 => some (.endGroup, bs)
  | 5 => (takeBytes 4 bs).map fun r => (.fixed32 r.1, r.2)
  | _ => none

/-- Split off one field: a key below `2^32` with a field number from 1 on, and the payload
of its wire type. -/
def takeField (bs : Bytes) : Option (Field × Bytes) :=
  match takeVarint bs with
  | none => none
  | some (key, bs) =>
    if key < 8 ∨ 2 ^ 32 ≤ key then none
    else (takePayload (key % 8) bs).map fun r => (⟨key / 8, r.1⟩, r.2)

theorem takeBytes_length_le {n : Nat} {bs taken rest : Bytes}
    (h : takeBytes n bs = some (taken, rest)) : rest.length ≤ bs.length := by
  rw [takeBytes] at h
  split at h
  · exact absurd h (by simp)
  · obtain ⟨-, rfl⟩ := Prod.mk.inj (Option.some.inj h)
    rw [List.length_drop]
    omega

theorem takePayload_length {w : Nat} {bs rest : Bytes} {p : Payload}
    (h : takePayload w bs = some (p, rest)) : rest.length ≤ bs.length := by
  unfold takePayload at h
  split at h
  · obtain ⟨⟨n, r⟩, hr, heq⟩ := Option.map_eq_some_iff.mp h
    obtain ⟨-, rfl⟩ := Prod.mk.inj heq
    exact Nat.le_of_lt (takeVarint_length hr)
  · obtain ⟨⟨n, r⟩, hr, heq⟩ := Option.map_eq_some_iff.mp h
    obtain ⟨-, rfl⟩ := Prod.mk.inj heq
    exact takeBytes_length_le hr
  · obtain ⟨⟨n, r⟩, hr, hmap⟩ := Option.bind_eq_some_iff.mp h
    obtain ⟨⟨b, r'⟩, hr', heq⟩ := Option.map_eq_some_iff.mp hmap
    obtain ⟨-, rfl⟩ := Prod.mk.inj heq
    exact Nat.le_trans (takeBytes_length_le hr') (Nat.le_of_lt (takeVarint_length hr))
  · obtain ⟨-, rfl⟩ := Prod.mk.inj (Option.some.inj h)
    exact Nat.le_refl _
  · obtain ⟨-, rfl⟩ := Prod.mk.inj (Option.some.inj h)
    exact Nat.le_refl _
  · obtain ⟨⟨n, r⟩, hr, heq⟩ := Option.map_eq_some_iff.mp h
    obtain ⟨-, rfl⟩ := Prod.mk.inj heq
    exact takeBytes_length_le hr
  · exact absurd h (by simp)

/-- Every field consumes bytes. -/
theorem takeField_length {bs rest : Bytes} {f : Field}
    (h : takeField bs = some (f, rest)) : rest.length < bs.length := by
  rw [takeField] at h
  split at h
  · exact absurd h (by simp)
  · next key bs' hkey =>
    split at h
    · exact absurd h (by simp)
    · obtain ⟨⟨p, r⟩, hr, heq⟩ := Option.map_eq_some_iff.mp h
      obtain ⟨-, rfl⟩ := Prod.mk.inj heq
      exact Nat.lt_of_le_of_lt (takePayload_length hr) (takeVarint_length hkey)

/-- A byte string behind a one-byte key and a one-byte length. -/
theorem takeField_len {key n : UInt8} (hkey : key.toNat < 128) (hnum : 8 ≤ key.toNat)
    (hwire : key.toNat % 8 = 2) (hn : n.toNat < 128) (bs : Bytes) :
    takeField (key :: n :: bs) =
      (takeBytes n.toNat bs).map fun r => (⟨key.toNat / 8, .len r.1⟩, r.2) := by
  have hbound : ¬ (key.toNat < 8 ∨ 2 ^ 32 ≤ key.toNat) := by omega
  rw [takeField, takeVarint_small hkey]
  simp only [if_neg hbound, hwire, takePayload, takeVarint_small hn, Option.bind_some,
    Option.map_map]
  rfl

/-! ## Messages -/

/-- All fields of a byte string, group marks included. Every field consumes bytes, so the
length of the string is enough fuel. -/
def takeFieldsFuel : Nat → Bytes → Option (List Field)
  | _, [] => some []
  | 0, _ :: _ => none
  | fuel + 1, b :: bs =>
    match takeField (b :: bs) with
    | none => none
    | some (f, rest) => (takeFieldsFuel fuel rest).map (f :: ·)

/-- The fields outside every group; `opened` are the numbers of the groups that are open,
innermost first. -/
def topLevel : List Nat → List Field → Option (List Field)
  | [], [] => some []
  | _ :: _, [] => none
  | opened, f :: fs =>
    match f.payload, opened with
    | .startGroup, _ => topLevel (f.number :: opened) fs
    | .endGroup, [] => none
    | .endGroup, g :: gs => if g = f.number then topLevel gs fs else none
    | _, [] => (topLevel [] fs).map (f :: ·)
    | _, _ :: _ => topLevel opened fs

/-- The top-level fields of a message. -/
def parse (bs : Bytes) : Option (List Field) :=
  (takeFieldsFuel bs.length bs).bind (topLevel [])

/-- Any fuel from the length on gives the same fields. -/
theorem takeFieldsFuel_of_le : ∀ {fuel : Nat} {bs : Bytes}, bs.length ≤ fuel →
    takeFieldsFuel fuel bs = takeFieldsFuel bs.length bs
  | 0, [], _ => rfl
  | _ + 1, [], _ => rfl
  | 0, _ :: _, h => by simp at h
  | fuel + 1, b :: bs, h => by
    rw [List.length_cons] at h ⊢
    rw [takeFieldsFuel, takeFieldsFuel]
    cases hf : takeField (b :: bs) with
    | none => rfl
    | some r =>
      obtain ⟨f, rest⟩ := r
      have hlen := takeField_length hf
      rw [List.length_cons] at hlen
      have hbig : takeFieldsFuel fuel rest = takeFieldsFuel rest.length rest :=
        takeFieldsFuel_of_le (by omega)
      have hsmall : takeFieldsFuel bs.length rest = takeFieldsFuel rest.length rest :=
        takeFieldsFuel_of_le (by omega)
      simp only [hbig, hsmall]
termination_by fuel => fuel
decreasing_by
  · exact Nat.lt_succ_self fuel
  · exact h

/-- The first field taken off a message: a byte string behind a one-byte key and a one-byte
length, and then the rest of the message. -/
theorem parse_len_cons {key n : UInt8} (hkey : key.toNat < 128) (hnum : 8 ≤ key.toNat)
    (hwire : key.toNat % 8 = 2) (hn : n.toNat < 128) (bs : Bytes) :
    parse (key :: n :: bs) =
      if bs.length < n.toNat then none
      else (parse (bs.drop n.toNat)).map
        (⟨key.toNat / 8, .len (bs.take n.toNat)⟩ :: ·) := by
  rw [parse, List.length_cons, takeFieldsFuel, takeField_len hkey hnum hwire hn, takeBytes]
  by_cases hshort : bs.length < n.toNat
  · simp only [if_pos hshort, Option.map_none, Option.bind_none]
  · have hfuel : (bs.drop n.toNat).length ≤ (n :: bs).length := by
      rw [List.length_drop, List.length_cons]
      omega
    simp only [if_neg hshort, Option.map_some, takeFieldsFuel_of_le hfuel, parse]
    cases takeFieldsFuel (bs.drop n.toNat).length (bs.drop n.toNat) with
    | none => rfl
    | some fs => rfl

/-- A key alone has no payload, or marks a group that is not closed. -/
theorem parse_singleton (b : UInt8) : parse [b] = none := by
  rw [parse, List.length_singleton, takeFieldsFuel, takeField]
  by_cases hb : b.toNat < 128
  · rw [takeVarint_small hb]
    by_cases hkey : b.toNat < 8 ∨ 2 ^ 32 ≤ b.toNat
    · simp only [if_pos hkey, Option.bind_none]
    · have hwire : b.toNat % 8 < 8 := Nat.mod_lt _ (by decide)
      simp only [if_neg hkey]
      generalize b.toNat % 8 = wire at hwire
      -- one case for each wire type
      match wire with
      | 0 | 1 | 2 | 3 | 4 | 5 | 6 | 7 => rfl
      | _ + 8 => omega
  · have hnone : takeVarint [b] = none := by
      rw [takeVarint, takeDigits, if_neg hb]
      rfl
    simp only [hnone, Option.bind_none]

/-! ## Reading a field -/

/-- The byte string of the last field `number` of a message. -/
def lastBytes (number : Nat) : List Field → Option Bytes
  | [] => none
  | f :: fs =>
    (lastBytes number fs).or
      (match f.payload with
        | .len bytes => if f.number = number then some bytes else none
        | _ => none)

/-- A first field of that number counts only where no other follows. -/
theorem lastBytes_cons_len (number : Nat) (bytes : Bytes) (fs : List Field) :
    lastBytes number (⟨number, .len bytes⟩ :: fs) = (lastBytes number fs).or (some bytes) := by
  simp only [lastBytes, if_true]

end Protobuf
