import Mathlib.Data.List.Forall2
import Pizzini.Lib.Bytes

/-!
# Fields of a binary format

Writers and readers for the fields that hand-written binary formats are put
together from: a byte, a `u64`, a UTF-8 text behind a `u16` length, and a
counted sequence of entries. Every reader comes with the statement that it
reads its writer's bytes back and leaves what follows them
(`takeByte_cons`, `takeU64_append`, `takeText_append`, `takeMany_append`), and
that what it has read stands in front as its writer writes it
(`takeByte_eq_some`, `takeU64_eq_some`, `takeText_eq_some`, `takeMany_eq_some`).
-/

namespace Wire

/-- Peeling one step off a throwing computation. -/
theorem bind_eq_ok {ε α β : Type} {x : Except ε α} {f : α → Except ε β} {b : β} :
    (x >>= f) = .ok b ↔ ∃ a, x = .ok a ∧ f a = .ok b := by
  cases x with
  | error e => simp [bind, Except.bind]
  | ok a => simp [bind, Except.bind]

/-! ## Bytes and words -/

/-- Split off one byte. -/
def takeByte : Bytes → Option (UInt8 × Bytes)
  | [] => none
  | b :: bs => some (b, bs)

@[simp] theorem takeByte_cons (b : UInt8) (rest : Bytes) :
    takeByte (b :: rest) = some (b, rest) := rfl

theorem takeByte_eq_some {bs rest : Bytes} {b : UInt8} (h : takeByte bs = some (b, rest)) :
    bs = b :: rest := by
  cases bs with
  | nil => cases h
  | cons b' bs =>
    cases h
    rfl

/-- A 64-bit word, big-endian. -/
def u64Bytes (n : UInt64) : Bytes := beBytes 8 n.toNat

/-- Split off a 64-bit word. -/
def takeU64 (bs : Bytes) : Option (UInt64 × Bytes) :=
  (takeNat 8 bs).map fun r => (UInt64.ofNat r.1, r.2)

@[simp] theorem length_u64Bytes (n : UInt64) : (u64Bytes n).length = 8 :=
  length_beBytes 8 n.toNat

@[simp] theorem takeU64_append (n : UInt64) (rest : Bytes) :
    takeU64 (u64Bytes n ++ rest) = some (n, rest) := by
  have hlt : n.toNat < 256 ^ 8 := n.toNat_lt
  rw [takeU64, u64Bytes, takeNat_append hlt, Option.map_some, UInt64.ofNat_toNat]

theorem u64Bytes_inj {m n : UInt64} (h : u64Bytes m = u64Bytes n) : m = n := by
  have htake : takeU64 (u64Bytes m ++ []) = takeU64 (u64Bytes n ++ []) := by rw [h]
  rw [takeU64_append, takeU64_append] at htake
  exact congrArg Prod.fst (Option.some.inj htake)

theorem takeBytes_length {n : Nat} {bs taken rest : Bytes}
    (h : takeBytes n bs = some (taken, rest)) : taken.length = n := by
  rw [takeBytes] at h
  split at h
  · exact absurd h (by simp)
  · obtain ⟨rfl, -⟩ := Prod.mk.inj (Option.some.inj h)
    rw [List.length_take]
    omega

theorem takeBytes_eq_some {n : Nat} {bs taken rest : Bytes}
    (h : takeBytes n bs = some (taken, rest)) : bs = taken ++ rest := by
  rw [takeBytes] at h
  split at h
  · cases h
  · cases h
    exact (List.take_append_drop n bs).symm

theorem takeNat_eq_some {w n : Nat} {bs rest : Bytes} (h : takeNat w bs = some (n, rest)) :
    bs = beBytes w n ++ rest ∧ n < 256 ^ w := by
  obtain ⟨⟨digits, rest'⟩, htake, heq⟩ := Option.map_eq_some_iff.mp h
  obtain ⟨rfl, rfl⟩ := Prod.mk.inj heq
  have hlen : digits.length = w := takeBytes_length htake
  subst hlen
  refine ⟨?_, beNat_lt digits⟩
  rw [beBytes_beNat]
  exact takeBytes_eq_some htake

theorem takeU64_eq_some {n : UInt64} {bs rest : Bytes} (h : takeU64 bs = some (n, rest)) :
    bs = u64Bytes n ++ rest := by
  obtain ⟨⟨m, rest'⟩, htake, heq⟩ := Option.map_eq_some_iff.mp h
  obtain ⟨rfl, rfl⟩ := Prod.mk.inj heq
  obtain ⟨hbs, hlt⟩ := takeNat_eq_some htake
  rw [u64Bytes, UInt64.toNat_ofNat_of_lt' hlt]
  exact hbs

theorem length_take_of_not_lt {n : Nat} {bs : Bytes} (h : ¬ bs.length < n) :
    (bs.take n).length = n := by
  rw [List.length_take]
  omega

/-- Split off a string of fixed length. -/
def takeFixed (n : Nat) (bs : Bytes) : Option (FixedBytes n × Bytes) :=
  if h : bs.length < n then none
  else some (⟨bs.take n, length_take_of_not_lt h⟩, bs.drop n)

@[simp] theorem takeFixed_append {n : Nat} (fixed : FixedBytes n) (rest : Bytes) :
    takeFixed n (fixed.1 ++ rest) = some (fixed, rest) := by
  have hlen : ¬ (fixed.1 ++ rest).length < n := by
    rw [List.length_append, fixed.2]
    omega
  rw [takeFixed, dif_neg hlen]
  congr 2
  · exact Subtype.ext (List.take_left' fixed.2)
  · exact List.drop_left' fixed.2

/-! ## Texts -/

/-- The UTF-8 bytes of a text. -/
def utf8 (s : String) : Bytes := s.toByteArray.data.toList

/-- The text that UTF-8 bytes denote, if they are valid UTF-8. -/
def ofUtf8? (bs : Bytes) : Option String := String.fromUTF8? ⟨bs.toArray⟩

@[simp] theorem ofUtf8?_utf8 (s : String) : ofUtf8? (utf8 s) = some s := by
  have harr : (⟨(utf8 s).toArray⟩ : ByteArray) = s.toByteArray := by simp [utf8]
  rw [ofUtf8?, harr, String.fromUTF8?, dif_pos s.isValidUTF8]
  rfl

/-- A text is the only one with its bytes. -/
theorem utf8_of_ofUtf8? {bs : Bytes} {s : String} (h : ofUtf8? bs = some s) : utf8 s = bs := by
  rw [ofUtf8?, String.fromUTF8?] at h
  split at h
  · cases h
    rfl
  · cases h

/-- A text behind its `u16` length. -/
def textBytes (s : String) : Bytes := beBytes 2 (utf8 s).length ++ utf8 s

/-- Split off a text behind its `u16` length: `none` when it is cut short or
is not UTF-8. -/
def takeText (bs : Bytes) : Option (String × Bytes) := do
  let (len, bs) ← takeNat 2 bs
  let (raw, bs) ← takeBytes len bs
  let s ← ofUtf8? raw
  return (s, bs)

/-- A text whose length fits the prefix is read back. -/
theorem takeText_append {s : String} (h : (utf8 s).length < 256 ^ 2) (rest : Bytes) :
    takeText (textBytes s ++ rest) = some (s, rest) := by
  rw [takeText, textBytes, List.append_assoc, takeNat_append h]
  show (takeBytes (utf8 s).length (utf8 s ++ rest)).bind _ = _
  rw [takeBytes_append rfl]
  show (ofUtf8? (utf8 s)).bind _ = _
  rw [ofUtf8?_utf8]
  rfl

theorem takeText_eq_some {s : String} {bs rest : Bytes} (h : takeText bs = some (s, rest)) :
    bs = textBytes s ++ rest ∧ (utf8 s).length < 256 ^ 2 := by
  obtain ⟨⟨len, bs₁⟩, hlen, h⟩ := Option.bind_eq_some_iff.mp h
  obtain ⟨⟨raw, bs₂⟩, hraw, h⟩ := Option.bind_eq_some_iff.mp h
  obtain ⟨s', hs, h⟩ := Option.bind_eq_some_iff.mp h
  cases h
  obtain ⟨hbs, hlt⟩ := takeNat_eq_some hlen
  have hrawlen : raw.length = len := takeBytes_length hraw
  subst hrawlen
  rw [textBytes, utf8_of_ofUtf8? hs, List.append_assoc, ← takeBytes_eq_some hraw]
  exact ⟨hbs, hlt⟩

/-! ## Counted sequences -/

variable {α : Type}

/-- Read `n` entries one after the other. -/
def takeMany (take : Bytes → Option (α × Bytes)) : Nat → Bytes → Option (List α × Bytes)
  | 0, bs => some ([], bs)
  | n + 1, bs =>
    match take bs with
    | none => none
    | some (a, bs) =>
      match takeMany take n bs with
      | none => none
      | some (as, bs) => some (a :: as, bs)

/-- Entries whose bytes the reader reads back, written one after the other, are
read back in order. -/
theorem takeMany_append {take : Bytes → Option (α × Bytes)} {as : List α} {bss : List Bytes}
    (h : List.Forall₂ (fun a bs => ∀ rest, take (bs ++ rest) = some (a, rest)) as bss)
    (rest : Bytes) : takeMany take as.length (bss.flatten ++ rest) = some (as, rest) := by
  induction h with
  | nil => rfl
  | cons ha _ ih =>
    rw [List.length_cons, List.flatten_cons, List.append_assoc, takeMany, ha]
    simp only [ih]

/-- What the reader ensures of every entry holds of all entries read. -/
theorem takeMany_forall {take : Bytes → Option (α × Bytes)} {P : α → Prop}
    (htake : ∀ {bs a rest}, take bs = some (a, rest) → P a) :
    ∀ {n : Nat} {bs : Bytes} {as : List α} {rest : Bytes},
      takeMany take n bs = some (as, rest) → ∀ a ∈ as, P a
  | 0, bs, as, rest, h => by
    obtain ⟨rfl, -⟩ := Prod.mk.inj (Option.some.inj h)
    simp
  | n + 1, bs, as, rest, h => by
    rw [takeMany] at h
    split at h
    · exact absurd h (by simp)
    · next a bs₁ ha =>
      split at h
      · exact absurd h (by simp)
      · next as₁ bs₂ has =>
        obtain ⟨rfl, -⟩ := Prod.mk.inj (Option.some.inj h)
        intro b hb
        rcases List.mem_cons.mp hb with rfl | hb
        · exact htake ha
        · exact takeMany_forall htake has b hb

/-- What the reader leaves of every entry's bytes, it leaves of the sequence's. -/
theorem takeMany_eq_some {take : Bytes → Option (α × Bytes)} {Writes : α → Bytes → Prop}
    (htake : ∀ {bs a rest}, take bs = some (a, rest) → ∃ front, Writes a front ∧ bs = front ++ rest) :
    ∀ {n : Nat} {bs : Bytes} {as : List α} {rest : Bytes}, takeMany take n bs = some (as, rest) →
      ∃ fronts, List.Forall₂ Writes as fronts ∧ bs = fronts.flatten ++ rest
  | 0, bs, as, rest, h => by
    cases h
    exact ⟨[], .nil, rfl⟩
  | n + 1, bs, as, rest, h => by
    rw [takeMany] at h
    split at h
    · cases h
    next a bs₁ ha =>
    split at h
    · cases h
    next as₁ bs₂ has =>
    cases h
    obtain ⟨front, hfront, rfl⟩ := htake ha
    obtain ⟨fronts, hfronts, rfl⟩ := takeMany_eq_some htake has
    refine ⟨front :: fronts, .cons hfront hfronts, ?_⟩
    rw [List.flatten_cons, List.append_assoc]

theorem takeMany_length {take : Bytes → Option (α × Bytes)} :
    ∀ {n : Nat} {bs : Bytes} {as : List α} {rest : Bytes},
      takeMany take n bs = some (as, rest) → as.length = n
  | 0, bs, as, rest, h => by
    obtain ⟨rfl, -⟩ := Prod.mk.inj (Option.some.inj h)
    rfl
  | n + 1, bs, as, rest, h => by
    rw [takeMany] at h
    split at h
    · exact absurd h (by simp)
    · split at h
      · exact absurd h (by simp)
      · next as₁ bs₂ has =>
        obtain ⟨rfl, -⟩ := Prod.mk.inj (Option.some.inj h)
        rw [List.length_cons, takeMany_length has]

end Wire
