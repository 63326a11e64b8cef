import Mathlib.Algebra.Ring.Nat
import Mathlib.Data.List.Induction
import Mathlib.Data.List.Forall2

/-!
# Byte strings, big-endian numbers and length-prefixed frames

The byte-level vocabulary that hand-written binary formats share:

- `beBytes w n` / `beNat`: a `w`-byte big-endian number and its reading, with
  both round trips (`beNat_beBytes`, `beBytes_beNat`);
- `takeBytes` / `takeNat`: reading a field off the front;
- `frame` / `unframe`: a `u32` length prefix in front of a non-empty payload.
  A whole frame at the front of a file is read back (`unframe_frame_append`);
  a frame cut short is never mistaken for one (`unframe_take`);
- `readFrames`: the reading loop of an append-only log. It stops at the first
  frame that is incomplete or that the payload decoder refuses, so a log made
  of whole frames and one torn frame at its end reads back exactly as the
  whole frames (`readFrames_torn`).
-/

namespace Wire

/-- A byte string. -/
abbrev Bytes := List UInt8

instance : LawfulBEq Bytes := inferInstance

/-- A byte string of fixed length (`[u8; n]`, a fixed-width `Data`). -/
abbrev FixedBytes (n : Nat) := { bs : Bytes // bs.length = n }

/-- The `n`-byte string all of whose bytes are `b`. -/
def FixedBytes.replicate (n : Nat) (b : UInt8) : FixedBytes n :=
  ⟨List.replicate n b, List.length_replicate⟩

/-- A statement about every byte is a finite check. -/
theorem forall_byte {P : UInt8 → Prop} (h : ∀ n : Fin 256, P (UInt8.ofFin n)) (b : UInt8) :
    P b :=
  h b.toFin

/-! ## Big-endian numbers -/

/-- The low `w` bytes of `n`, most significant first. -/
def beBytes : Nat → Nat → Bytes
  | 0, _ => []
  | w + 1, n => beBytes w (n / 256) ++ [UInt8.ofNat n]

/-- The number a big-endian byte string denotes. -/
def beNat (bs : Bytes) : Nat :=
  bs.foldl (fun acc b => acc * 256 + b.toNat) 0

@[simp] theorem length_beBytes : ∀ w n, (beBytes w n).length = w
  | 0, _ => rfl
  | w + 1, n => by simp [beBytes, length_beBytes w]

@[simp] theorem beNat_nil : beNat [] = 0 := rfl

theorem beNat_snoc (bs : Bytes) (b : UInt8) :
    beNat (bs ++ [b]) = beNat bs * 256 + b.toNat := by
  simp [beNat, List.foldl_append]

/-- Writing a number and reading it back, for numbers that fit the width. -/
theorem beNat_beBytes {w n : Nat} (h : n < 256 ^ w) : beNat (beBytes w n) = n := by
  induction w generalizing n with
  | zero =>
    have hn : n = 0 := by simpa using h
    subst hn
    rfl
  | succ w ih =>
    have hdiv : n / 256 < 256 ^ w := by
      rw [Nat.pow_succ] at h
      exact Nat.div_lt_of_lt_mul (by rw [Nat.mul_comm]; exact h)
    rw [beBytes, beNat_snoc, ih hdiv]
    have hmod : (UInt8.ofNat n).toNat = n % 256 := by simp
    rw [hmod]
    omega

theorem beNat_lt (bs : Bytes) : beNat bs < 256 ^ bs.length := by
  induction bs using List.reverseRecOn with
  | nil => simp
  | append_singleton bs b ih =>
    have hb : b.toNat < 256 := b.toNat_lt
    rw [beNat_snoc, List.length_append, List.length_singleton, Nat.pow_succ]
    omega

/-- Reading a number and writing it back at the width it was read from. -/
theorem beBytes_beNat (bs : Bytes) : beBytes bs.length (beNat bs) = bs := by
  induction bs using List.reverseRecOn with
  | nil => rfl
  | append_singleton bs b ih =>
    have hb : b.toNat < 256 := b.toNat_lt
    have hdiv : (beNat bs * 256 + b.toNat) / 256 = beNat bs := by omega
    have hlow : UInt8.ofNat (beNat bs * 256 + b.toNat) = b := by
      apply UInt8.toNat_inj.mp
      rw [UInt8.toNat_ofNat']
      omega
    rw [List.length_append, List.length_singleton, beNat_snoc, beBytes, hdiv, ih, hlow]

/-! ## Reading from the front -/

/-- Split off `n` bytes, or fail when fewer are left. -/
def takeBytes (n : Nat) (bs : Bytes) : Option (Bytes × Bytes) :=
  if bs.length < n then none else some (bs.take n, bs.drop n)

/-- Split off a `w`-byte big-endian number. -/
def takeNat (w : Nat) (bs : Bytes) : Option (Nat × Bytes) :=
  (takeBytes w bs).map fun r => (beNat r.1, r.2)

theorem takeBytes_append {n : Nat} {bs : Bytes} (h : bs.length = n) (rest : Bytes) :
    takeBytes n (bs ++ rest) = some (bs, rest) := by
  have hlen : ¬ (bs ++ rest).length < n := by
    rw [List.length_append]
    omega
  rw [takeBytes, if_neg hlen, List.take_left' h, List.drop_left' h]

theorem takeNat_append {w n : Nat} (h : n < 256 ^ w) (rest : Bytes) :
    takeNat w (beBytes w n ++ rest) = some (n, rest) := by
  rw [takeNat, takeBytes_append (length_beBytes w n), Option.map_some, beNat_beBytes h]

/-! ## Frames -/

/-- A payload behind its four-byte length. -/
def frame (p : Bytes) : Bytes := beBytes 4 p.length ++ p

/-- Split the first frame off a byte string: `none` when fewer than four bytes
are left, when the length is zero, or when the payload is cut short. -/
def unframe (bs : Bytes) : Option (Bytes × Bytes) :=
  if bs.length < 4 then none
  else
    let len := beNat (bs.take 4)
    let rest := bs.drop 4
    if len = 0 ∨ rest.length < len then none
    else some (rest.take len, rest.drop len)

/-- The frame that is split off is behind its length. -/
theorem unframe_eq_some {bs p rest : Bytes} (h : unframe bs = some (p, rest)) :
    bs.drop 4 = p ++ rest := by
  simp only [unframe] at h
  split at h
  · cases h
  · split at h
    · cases h
    · cases h
      exact (List.take_append_drop _ _).symm

@[simp] theorem length_frame (p : Bytes) : (frame p).length = 4 + p.length := by
  simp [frame]

/-- A whole frame at the front is read back, whatever follows it. -/
theorem unframe_frame_append {p : Bytes} (hpos : 0 < p.length)
    (hlt : p.length < 256 ^ 4) (rest : Bytes) :
    unframe (frame p ++ rest) = some (p, rest) := by
  have htake : (frame p ++ rest).take 4 = beBytes 4 p.length := by
    rw [frame, List.append_assoc, List.take_append_of_le_length (by simp)]
    exact List.take_of_length_le (by simp)
  have hdrop : (frame p ++ rest).drop 4 = p ++ rest := by
    rw [frame, List.append_assoc, List.drop_append_of_le_length (by simp),
      List.drop_of_length_le (by simp), List.nil_append]
  have hlen : ¬ (frame p ++ rest).length < 4 := by
    rw [List.length_append, length_frame]
    omega
  have hcond : ¬ (p.length = 0 ∨ (p ++ rest).length < p.length) := by
    rw [List.length_append]
    omega
  simp only [unframe, if_neg hlen, htake, hdrop, beNat_beBytes hlt, if_neg hcond]
  simp

/-- A frame cut short is not read as a frame. -/
theorem unframe_take {p : Bytes} (hlt : p.length < 256 ^ 4) {n : Nat}
    (hn : n < (frame p).length) : unframe ((frame p).take n) = none := by
  rw [length_frame] at hn
  by_cases hshort : n < 4
  · have hlen : ((frame p).take n).length < 4 := by
      rw [List.length_take]
      omega
    simp only [unframe, if_pos hlen]
  · have hlen : ¬ ((frame p).take n).length < 4 := by
      rw [List.length_take, length_frame]
      omega
    have htake : ((frame p).take n).take 4 = beBytes 4 p.length := by
      rw [List.take_take, Nat.min_eq_left (by omega), frame,
        List.take_append_of_le_length (by simp)]
      exact List.take_of_length_le (by simp)
    have hrest : (((frame p).take n).drop 4).length < p.length := by
      rw [List.length_drop, List.length_take, length_frame]
      omega
    simp only [unframe, if_neg hlen, htake, beNat_beBytes hlt, if_pos (Or.inr hrest)]

/-! ## Logs of frames -/

/-- The bytes of a sequence of frames. -/
def frames (ps : List Bytes) : Bytes := (ps.map frame).flatten

@[simp] theorem frames_nil : frames [] = [] := rfl

@[simp] theorem frames_cons (p : Bytes) (ps : List Bytes) :
    frames (p :: ps) = frame p ++ frames ps := rfl

theorem frames_append (ps qs : List Bytes) :
    frames (ps ++ qs) = frames ps ++ frames qs := by
  simp [frames]

theorem length_le_frames (ps : List Bytes) : ps.length ≤ (frames ps).length := by
  induction ps with
  | nil => exact Nat.le_refl _
  | cons p ps ih =>
    rw [frames_cons, List.length_append, length_frame, List.length_cons]
    omega

/-- The bytes are whole frames, with nothing behind them. -/
def WholeFrames (bs : Bytes) : Prop :=
  ∃ ps, bs = frames ps ∧ ∀ p ∈ ps, 0 < p.length ∧ p.length < 256 ^ 4

/-- There is one way to read a log as frames and something that is no frame. -/
theorem WholeFrames.tail_eq_nil {ps : List Bytes} (hps : ∀ p ∈ ps, 0 < p.length ∧ p.length < 256 ^ 4)
    {tail : Bytes} (htail : unframe tail = none) (h : WholeFrames (frames ps ++ tail)) :
    tail = [] := by
  obtain ⟨qs, heq, hqs⟩ := h
  induction ps generalizing qs with
  | nil =>
    cases qs with
    | nil => exact heq
    | cons q qs =>
      have hq := hqs q List.mem_cons_self
      rw [frames_nil, List.nil_append, frames_cons] at heq
      rw [heq, unframe_frame_append hq.1 hq.2] at htail
      cases htail
  | cons p ps ih =>
    have hp := hps p List.mem_cons_self
    rw [frames_cons, List.append_assoc] at heq
    have hread := unframe_frame_append hp.1 hp.2 (frames ps ++ tail)
    cases qs with
    | nil =>
      rw [heq, frames_nil] at hread
      cases hread
    | cons q qs =>
      have hq := hqs q List.mem_cons_self
      rw [frames_cons] at heq
      rw [heq, unframe_frame_append hq.1 hq.2] at hread
      obtain ⟨rfl, hrest⟩ := Prod.mk.inj (Option.some.inj hread)
      exact ih (fun p hmem => hps p (List.mem_cons_of_mem _ hmem)) qs hrest.symm
        fun q hmem => hqs q (List.mem_cons_of_mem _ hmem)

variable {α : Type}

/-- The reading loop of a log: frames from the front, each decoded, until one
is incomplete or refused. Every round consumes bytes, so the length of the
file is enough fuel. -/
def readFramesFuel (decode : Bytes → Option α) : Nat → Bytes → List α
  | 0, _ => []
  | fuel + 1, bs =>
    match unframe bs with
    | none => []
    | some (p, rest) =>
      match decode p with
      | none => []
      | some a => a :: readFramesFuel decode fuel rest

/-- The records of a log file. -/
def readFrames (decode : Bytes → Option α) (bs : Bytes) : List α :=
  readFramesFuel decode bs.length bs

/-- A payload that a log can carry and its decoder reads as `a`. -/
structure Readable (decode : Bytes → Option α) (p : Bytes) (a : α) : Prop where
  pos : 0 < p.length
  lt : p.length < 256 ^ 4
  decoded : decode p = some a

theorem readFramesFuel_frames {decode : Bytes → Option α} {ps : List Bytes} {as : List α}
    (h : List.Forall₂ (Readable decode) ps as) {tail : Bytes}
    (htail : unframe tail = none) :
    ∀ {fuel : Nat}, ps.length ≤ fuel →
      readFramesFuel decode fuel (frames ps ++ tail) = as := by
  induction h with
  | nil =>
    intro fuel _
    cases fuel with
    | zero => rfl
    | succ fuel => simp [readFramesFuel, htail]
  | cons hp _ ih =>
    intro fuel hfuel
    cases fuel with
    | zero => simp at hfuel
    | succ fuel =>
      rw [frames_cons, List.append_assoc, readFramesFuel,
        unframe_frame_append hp.pos hp.lt]
      simp only [hp.decoded]
      rw [ih (Nat.le_of_succ_le_succ hfuel)]

/-- Whole frames followed by something that is not a frame read back as the
whole frames: the torn tail of a log is invisible. -/
theorem readFrames_torn {decode : Bytes → Option α} {ps : List Bytes} {as : List α}
    (h : List.Forall₂ (Readable decode) ps as) {tail : Bytes}
    (htail : unframe tail = none) : readFrames decode (frames ps ++ tail) = as := by
  refine readFramesFuel_frames h htail ?_
  rw [List.length_append]
  exact Nat.le_add_right_of_le (length_le_frames ps)

/-- Whatever is read off a log, well formed or not, was decoded from some of its
bytes. -/
theorem infix_of_mem_readFrames {decode : Bytes → Option α} {bs : Bytes} {a : α}
    (h : a ∈ readFrames decode bs) : ∃ p, p <:+: bs ∧ decode p = some a := by
  have hloop : ∀ (fuel : Nat) (bs : Bytes), a ∈ readFramesFuel decode fuel bs →
      ∃ p, p <:+: bs ∧ decode p = some a := by
    intro fuel
    induction fuel with
    | zero => exact fun _ h => absurd h List.not_mem_nil
    | succ fuel ih =>
      intro bs h
      rw [readFramesFuel] at h
      split at h
      · cases h
      next p rest hframe =>
        have hsplit := unframe_eq_some hframe
        split at h
        · cases h
        next a' hdecode =>
          cases List.mem_cons.mp h with
          | inl heq =>
            subst heq
            exact ⟨p, ⟨bs.take 4, rest, by rw [List.append_assoc, ← hsplit, List.take_append_drop]⟩,
              hdecode⟩
          | inr hin =>
            obtain ⟨p', hinfix, hdecode'⟩ := ih rest hin
            refine ⟨p', hinfix.trans ?_, hdecode'⟩
            exact ((List.suffix_append p rest).trans
              (hsplit ▸ List.drop_suffix 4 bs)).isInfix
  exact hloop _ bs h

end Wire
