import Pizzini.Lib.Bytes

/-!
# A stream of frames that arrives in part

A receiver has the first bytes of a stream of frames. `wholePayloads` are the payloads
whose frames lie within them and `unread` is what stands behind these frames. A
stream that goes on is read from the unread bytes alone (`wholePayloads_append`), and that
is all a reader has to keep.
-/

namespace Wire

/-- The payloads whose frames end within the first `n` bytes. -/
def wholePayloads : List Bytes → Nat → List Bytes
  | [], _ => []
  | p :: ps, n => if 4 + p.length ≤ n then p :: wholePayloads ps (n - (4 + p.length)) else []

/-- The bytes behind the frames that have arrived whole. -/
def unread (ps : List Bytes) (bs : Bytes) : Bytes :=
  bs.drop (frames (wholePayloads ps bs.length)).length

theorem wholePayloads_prefix : ∀ (ps : List Bytes) (n : Nat), wholePayloads ps n <+: ps
  | [], _ => List.prefix_refl []
  | p :: ps, n => by
    rw [wholePayloads]
    split
    · exact List.cons_prefix_cons.mpr ⟨rfl, wholePayloads_prefix ps _⟩
    · exact List.nil_prefix

/-- They are the longest beginning of the payloads whose frames fit. -/
theorem prefix_wholePayloads_iff {qs : List Bytes} : ∀ {ps : List Bytes} {n : Nat},
    qs <+: wholePayloads ps n ↔ qs <+: ps ∧ (frames qs).length ≤ n := by
  induction qs with
  | nil => exact fun {ps n} => ⟨fun _ => ⟨List.nil_prefix, Nat.zero_le n⟩, fun _ => List.nil_prefix⟩
  | cons q qs ih =>
    intro ps n
    cases ps with
    | nil => simp [wholePayloads]
    | cons p ps =>
      rw [wholePayloads, frames_cons, List.length_append, length_frame]
      by_cases hfits : 4 + p.length ≤ n
      · rw [if_pos hfits, List.cons_prefix_cons, List.cons_prefix_cons, ih]
        constructor
        · rintro ⟨rfl, hqs, hlen⟩
          exact ⟨⟨rfl, hqs⟩, by omega⟩
        · rintro ⟨⟨rfl, hqs⟩, hlen⟩
          exact ⟨rfl, hqs, by omega⟩
      · rw [if_neg hfits, List.cons_prefix_cons]
        constructor
        · intro h
          cases List.prefix_nil.mp h
        · rintro ⟨⟨rfl, -⟩, hlen⟩
          omega

/-- Whole frames in front are payloads that have arrived. -/
theorem wholePayloads_append (done rest : List Bytes) (n : Nat) :
    wholePayloads (done ++ rest) ((frames done).length + n) = done ++ wholePayloads rest n := by
  induction done with
  | nil => rw [frames_nil, List.length_nil, Nat.zero_add, List.nil_append, List.nil_append]
  | cons p done ih =>
    rw [frames_cons, List.length_append, length_frame, List.cons_append, wholePayloads,
      if_pos (by omega)]
    rw [show 4 + p.length + (frames done).length + n - (4 + p.length) = (frames done).length + n by
      omega, ih, List.cons_append]

/-- What has arrived is the frames that are whole and the unread bytes. -/
theorem frames_append_unread {ps : List Bytes} {bs : Bytes} (h : bs <+: frames ps) :
    frames (wholePayloads ps bs.length) ++ unread ps bs = bs := by
  have hfits : (frames (wholePayloads ps bs.length)).length ≤ bs.length :=
    (prefix_wholePayloads_iff.mp (List.prefix_refl _)).2
  have hwhole : frames (wholePayloads ps bs.length) <+: frames ps := by
    obtain ⟨rest, hrest⟩ := wholePayloads_prefix ps bs.length
    refine ⟨frames rest, ?_⟩
    rw [← frames_append, hrest]
  exact List.prefix_iff_eq_append.mp (List.prefix_of_prefix_length_le hwhole h hfits)

/-- The payloads that have arrived, those that are outstanding, and the unread bytes, which
hold none of them. -/
theorem exists_outstanding {ps : List Bytes} {bs : Bytes} (h : bs <+: frames ps) :
    ∃ done rest tail, ps = done ++ rest ∧ bs = frames done ++ tail ∧
      wholePayloads ps bs.length = done ∧ unread ps bs = tail ∧
        wholePayloads rest tail.length = [] := by
  obtain ⟨rest, hrest⟩ := wholePayloads_prefix ps bs.length
  have hbs := frames_append_unread h
  refine ⟨_, rest, _, hrest.symm, hbs.symm, rfl, rfl, ?_⟩
  have hagain := wholePayloads_append (wholePayloads ps bs.length) rest (unread ps bs).length
  rw [← List.length_append, hbs, hrest] at hagain
  exact List.append_right_eq_self.mp hagain.symm

/-- The same for the bytes that are left. -/
theorem unread_append (done rest : List Bytes) (bs : Bytes) :
    unread (done ++ rest) (frames done ++ bs) = unread rest bs := by
  rw [unread, List.length_append, wholePayloads_append, frames_append, List.length_append,
    List.drop_length_add_append, unread]

end Wire
