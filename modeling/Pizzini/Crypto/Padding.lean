import Pizzini.Crypto.Libsignal
import Mathlib.Order.Bounds.Basic

/-!
# Bucket padding

`pad_plaintext` and `unpad_plaintext` (store.rs:123–209): a plaintext behind its
length, filled with zeros to the smallest bucket that holds it.

The bucket is found by a search from the front of a list that is in order, so it is the
least one (`bucketFor_eq_some_iff`). All that a padded plaintext shows of its length is
that bucket, and what comes back from any bytes is a slice of them (`padding_hides_length`).
-/

namespace Pizzini.Crypto

open Wire

def PADDING_BUCKETS : List Nat := [256, 1024, 4096, 16384, 65536, 262144]

def PADDING_LEN_PREFIX : Nat := 4

/-- The bucket of a plaintext of `n` bytes. -/
def bucketFor (n : Nat) : Option Nat := PADDING_BUCKETS.find? fun b => n + PADDING_LEN_PREFIX ≤ b

/-- `pad_plaintext`. -/
def padPlaintext (plaintext : Bytes) : Result Bytes :=
  if 2 ^ 32 ≤ plaintext.length then .error (.invalidArgument "plaintext length exceeds u32::MAX")
  else match bucketFor plaintext.length with
    | none => .error (.invalidArgument
        s!"plaintext too large for padding buckets: {plaintext.length} bytes > {262144} max")
    | some bucket =>
      .ok (beBytes 4 plaintext.length ++ plaintext ++
        List.replicate (bucket - (PADDING_LEN_PREFIX + plaintext.length)) 0)

/-- `unpad_plaintext`. -/
def unpadPlaintext (padded : Bytes) : Result Bytes :=
  if padded.length < PADDING_LEN_PREFIX then
    .error (.invalidArgument "padded plaintext shorter than length prefix")
  else
    let realLen := beNat (padded.take PADDING_LEN_PREFIX)
    let avail := padded.length - PADDING_LEN_PREFIX
    if realLen > avail then
      .error (.invalidArgument s!"padded length prefix {realLen} exceeds available {avail}")
    else .ok ((padded.drop PADDING_LEN_PREFIX).take realLen)

/-! ## The least bucket -/

/-- In a list in order, what a search from the front finds first is the least. -/
theorem find?_eq_some_iff_isLeast {bound : Nat} : ∀ {l : List Nat}, l.Pairwise (· < ·) → ∀ {b : Nat},
    l.find? (fun b => bound ≤ b) = some b ↔ IsLeast {b | b ∈ l ∧ bound ≤ b} b
  | [], _, b => by
    constructor
    · intro h
      cases h
    · rintro ⟨⟨hmem, -⟩, -⟩
      cases hmem
  | a :: l, hsorted, b => by
    obtain ⟨hhead, htail⟩ := List.pairwise_cons.mp hsorted
    by_cases ha : bound ≤ a
    · have hleast : IsLeast {b | b ∈ a :: l ∧ bound ≤ b} a := by
        refine ⟨⟨List.mem_cons_self, ha⟩, ?_⟩
        rintro c ⟨hmem, -⟩
        cases hmem with
        | head => exact Nat.le_refl a
        | tail _ hmem => exact Nat.le_of_lt (hhead c hmem)
      have hfound : (a :: l).find? (fun b => bound ≤ b) = some a :=
        List.find?_cons_of_pos (decide_eq_true ha)
      rw [hfound]
      constructor
      · rintro ⟨⟩
        exact hleast
      · exact fun h => congrArg some (hleast.unique h)
    · have hsame : {b | b ∈ a :: l ∧ bound ≤ b} = {b | b ∈ l ∧ bound ≤ b} := by
        ext c
        refine and_congr_left fun hc => ⟨fun hmem => ?_, List.mem_cons_of_mem a⟩
        cases hmem with
        | head => exact absurd hc ha
        | tail _ hmem => exact hmem
      have hskipped : (a :: l).find? (fun b => bound ≤ b) = l.find? fun b => bound ≤ b :=
        List.find?_cons_of_neg (by simpa using ha)
      rw [hskipped, hsame]
      exact find?_eq_some_iff_isLeast htail

/-- The buckets that hold `n` bytes and their length. -/
def bucketsHolding (n : Nat) : Set Nat := {b | b ∈ PADDING_BUCKETS ∧ n + PADDING_LEN_PREFIX ≤ b}

theorem bucketFor_eq_some_iff {n bucket : Nat} :
    bucketFor n = some bucket ↔ IsLeast (bucketsHolding n) bucket :=
  find?_eq_some_iff_isLeast (by decide)

theorem bucketFor_eq_none_iff {n : Nat} : bucketFor n = none ↔ 262140 < n := by
  have hnone : bucketFor n = none ↔ ∀ b ∈ PADDING_BUCKETS, ¬ n + PADDING_LEN_PREFIX ≤ b := by
    rw [bucketFor, List.find?_eq_none]
    exact forall₂_congr fun b _ => not_congr decide_eq_true_iff
  rw [hnone, PADDING_LEN_PREFIX]
  constructor
  · intro h
    have hlast := h 262144 (by decide)
    omega
  · intro h b hmem
    have hmax : b ≤ 262144 := (by decide : ∀ b ∈ PADDING_BUCKETS, b ≤ 262144) b hmem
    omega

/-- A bucket holds the plaintext and its length. -/
theorem bucketFor_holds {n bucket : Nat} (h : bucketFor n = some bucket) :
    n + PADDING_LEN_PREFIX ≤ bucket := by
  have hfound : decide (n + PADDING_LEN_PREFIX ≤ bucket) = true := by
    rw [bucketFor] at h
    exact (List.find?_eq_some_iff_append.mp h).1
  exact of_decide_eq_true hfound

/-! ## Padding and unpadding -/

/-- A plaintext with a bucket is padded. -/
theorem exists_padPlaintext {plaintext : Bytes} {bucket : Nat}
    (h : bucketFor plaintext.length = some bucket) : ∃ padded, padPlaintext plaintext = .ok padded := by
  have hsmall : ¬ 262140 < plaintext.length := by
    rw [← bucketFor_eq_none_iff, h]
    exact Option.some_ne_none bucket
  rw [padPlaintext, if_neg (by omega), h]
  exact ⟨_, rfl⟩

/-- A padded plaintext has the length of its bucket. -/
theorem length_padPlaintext {plaintext padded : Bytes} (h : padPlaintext plaintext = .ok padded) :
    bucketFor plaintext.length = some padded.length := by
  rw [padPlaintext] at h
  split at h
  · cases h
  · cases hbucket : bucketFor plaintext.length with
    | none =>
      rw [hbucket] at h
      cases h
    | some bucket =>
      rw [hbucket] at h
      have hholds : plaintext.length + PADDING_LEN_PREFIX ≤ bucket := bucketFor_holds hbucket
      cases h
      rw [List.length_append, List.length_append, length_beBytes, List.length_replicate]
      rw [PADDING_LEN_PREFIX] at hholds ⊢
      congr 1
      omega

/-- The receiver gets the plaintext back. -/
theorem unpadPlaintext_padPlaintext {plaintext padded : Bytes}
    (h : padPlaintext plaintext = .ok padded) : unpadPlaintext padded = .ok plaintext := by
  rw [padPlaintext] at h
  split at h
  · cases h
  · rename_i hfits
    split at h
    · cases h
    · cases h
      have hlen : plaintext.length < 256 ^ 4 := by omega
      have htake : ∀ rest : Bytes, (beBytes 4 plaintext.length ++ plaintext ++ rest).take
          PADDING_LEN_PREFIX = beBytes 4 plaintext.length := by
        intro rest
        rw [List.append_assoc]
        exact List.take_left' (length_beBytes _ _)
      have hdrop : ∀ rest : Bytes, (beBytes 4 plaintext.length ++ plaintext ++ rest).drop
          PADDING_LEN_PREFIX = plaintext ++ rest := by
        intro rest
        rw [List.append_assoc]
        exact List.drop_left' (length_beBytes _ _)
      rw [unpadPlaintext]
      simp only [htake, hdrop, beNat_beBytes hlen]
      rw [if_neg, if_neg, List.take_left]
      · simp only [List.length_append, length_beBytes, PADDING_LEN_PREFIX]
        omega
      · simp only [List.length_append, length_beBytes, PADDING_LEN_PREFIX]
        omega

/-- What is taken off any bytes is the slice that their prefix measures, and it lies within
them. -/
theorem unpadPlaintext_eq_ok {padded plaintext : Bytes} (h : unpadPlaintext padded = .ok plaintext) :
    4 + plaintext.length ≤ padded.length ∧ plaintext.length = beNat (padded.take 4) ∧
      plaintext = (padded.drop 4).take plaintext.length := by
  rw [unpadPlaintext, PADDING_LEN_PREFIX] at h
  split at h
  · cases h
  next hlong =>
    dsimp only at h
    split at h
    · cases h
    next havail =>
      cases h
      have hlen : ((padded.drop 4).take (beNat (padded.take 4))).length = beNat (padded.take 4) := by
        rw [List.length_take, List.length_drop]
        omega
      rw [hlen]
      exact ⟨by omega, rfl, rfl⟩

/-- Padding hides the length up to the least bucket and loses nothing, and nothing is read
outside the bytes that come in, whatever they are. -/
theorem padding_hides_length (p : Bytes) :
    ((∃ padded, padPlaintext p = .ok padded) ↔ p.length ≤ 262140) ∧
      (∀ padded, padPlaintext p = .ok padded →
        IsLeast (bucketsHolding p.length) padded.length ∧ unpadPlaintext padded = .ok p) ∧
      (∀ q bucket, IsLeast (bucketsHolding p.length) bucket →
        IsLeast (bucketsHolding q.length) bucket →
          ∃ padded padded', padPlaintext p = .ok padded ∧ padPlaintext q = .ok padded' ∧
            padded.length = padded'.length) ∧
      ∀ b, (∃ e, unpadPlaintext b = .error e) ∨
        ∃ s, unpadPlaintext b = .ok s ∧ 4 + s.length ≤ b.length ∧ s.length = beNat (b.take 4) ∧
          s = (b.drop 4).take s.length := by
  refine ⟨⟨?_, ?_⟩, fun padded h => ⟨?_, unpadPlaintext_padPlaintext h⟩, ?_, fun b => ?_⟩
  · rintro ⟨padded, h⟩
    have hbucket := length_padPlaintext h
    by_contra hlong
    rw [bucketFor_eq_none_iff.mpr (by omega)] at hbucket
    cases hbucket
  · intro hshort
    cases hbucket : bucketFor p.length with
    | none => exact absurd (bucketFor_eq_none_iff.mp hbucket) (by omega)
    | some bucket => exact exists_padPlaintext hbucket
  · exact bucketFor_eq_some_iff.mp (length_padPlaintext h)
  · intro q bucket hp hq
    obtain ⟨padded, h⟩ := exists_padPlaintext (bucketFor_eq_some_iff.mpr hp)
    obtain ⟨padded', h'⟩ := exists_padPlaintext (bucketFor_eq_some_iff.mpr hq)
    have hlen : IsLeast (bucketsHolding p.length) padded.length :=
      bucketFor_eq_some_iff.mp (length_padPlaintext h)
    have hlen' : IsLeast (bucketsHolding q.length) padded'.length :=
      bucketFor_eq_some_iff.mp (length_padPlaintext h')
    exact ⟨padded, padded', h, h', (hlen.unique hp).trans (hq.unique hlen')⟩
  · cases hread : unpadPlaintext b with
    | error e => exact .inl ⟨e, rfl⟩
    | ok s => exact .inr ⟨s, rfl, unpadPlaintext_eq_ok hread⟩

end Pizzini.Crypto
