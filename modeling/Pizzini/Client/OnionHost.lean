import Mathlib.Data.Bool.AllAny
import Pizzini.Client.Socks5

/-!
# Which hosts are dialled (RelayRegistry.swift:100–137)

`OnionHost.canonical` wants to let through v3 onion names in ASCII and nothing that only
looks like one. Its test for ASCII is made on the lower case of the host, and its test for
look-alikes with an equality of strings that is canonical equivalence. One scalar passes
both: U+212A KELVIN SIGN is canonically equivalent to `K` and its lower case is `k`
(`canonical_eq_some_iff`). Up to that scalar the check does what it says
(`acceptsAscii_iff`).
-/

namespace Pizzini.Client

/-- U+212A. -/
def kelvinSign : Char := Char.ofNat 0x212A

/-- An onion name of version 3, in any letter case. -/
def AsciiOnion (raw : List Char) : Prop :=
  (∀ c ∈ raw, c.toNat < 128) ∧ ∃ label suffix, raw = label ++ '.' :: suffix ∧ label.length = 56 ∧
    (∀ c ∈ label, 'A' ≤ c ∧ c ≤ 'Z' ∨ 'a' ≤ c ∧ c ≤ 'z' ∨ '2' ≤ c ∧ c ≤ '7') ∧
    suffix.map Char.toLower = "onion".toList

/-- What it is canonically equivalent to, when all else is ASCII. -/
def withoutKelvin (raw : List Char) : List Char := raw.map fun c => if c = kelvinSign then 'K' else c

/-- A look-alike: an onion name in which a `K` is the Kelvin sign. -/
def KelvinOnion (raw : List Char) : Prop := kelvinSign ∈ raw ∧ AsciiOnion (withoutKelvin raw)

/-- Facts of the Unicode standard: a text of ASCII and Kelvin signs is canonically equivalent
to its compatibility mapping, and its lower case is that of ASCII; the lower case of any other
scalar is not ASCII. -/
structure HostTables.Standard (tables : HostTables) : Prop where
  mapped : ∀ {raw : List Char}, (∀ c ∈ raw, c.toNat < 128 ∨ c = kelvinSign) →
    tables.isCompatibilityMapped raw = true
  lowercased : ∀ {raw : List Char}, (∀ c ∈ raw, c.toNat < 128 ∨ c = kelvinSign) →
    tables.lowercased raw = (withoutKelvin raw).map Char.toLower
  other : ∀ {raw : List Char} {c : Char}, c ∈ raw → ¬ (c.toNat < 128 ∨ c = kelvinSign) →
    ∃ d ∈ tables.lowercased raw, 128 ≤ d.toNat

/-! ## The lower-case name -/

/-- What `canonical` looks for in the lower case of its argument. -/
def IsOnion (lowered : List Char) : Prop :=
  ∃ label, lowered = label ++ '.' :: "onion".toList ∧ label.length = 56 ∧
    ∀ c ∈ label, c ∈ onionAlphabet

theorem eq_of_splitOn {l label suffix : List Char} (h : l.splitOn '.' = [label, suffix]) :
    l = label ++ '.' :: suffix := by
  have hback : ['.'].intercalate (l.splitOn '.') = l := List.intercalate_splitOn '.'
  rw [h] at hback
  rw [← hback]
  simp [List.intercalate]

theorem dot_notMem_label {label : List Char} (h : ∀ c ∈ label, c ∈ onionAlphabet) : '.' ∉ label :=
  fun hmem => absurd (h '.' hmem) (by decide)

theorem splitOn_onion {label : List Char} (h : ∀ c ∈ label, c ∈ onionAlphabet) :
    (label ++ '.' :: "onion".toList).splitOn '.' = [label, "onion".toList] := by
  rw [List.splitOn_append_cons_self, List.splitOn_eq_singleton (dot_notMem_label h),
    List.splitOn_eq_singleton (by decide)]
  rfl

/-- An onion name is printable. -/
theorem IsOnion.printable {lowered : List Char} (h : IsOnion lowered) {c : Char} (hc : c ∈ lowered) :
    0x21 ≤ c.toNat ∧ c.toNat ≤ 0x7E := by
  obtain ⟨label, rfl, -, halphabet⟩ := h
  have hall : ∀ c ∈ onionAlphabet ++ '.' :: "onion".toList, 0x21 ≤ c.toNat ∧ c.toNat ≤ 0x7E :=
    List.all_iff_forall_prop.mp (by decide)
  rcases List.mem_append.mp hc with hlabel | hrest
  · exact hall c (List.mem_append_left _ (halphabet c hlabel))
  · exact hall c (List.mem_append_right _ hrest)

theorem canonical_eq_some_iff_isOnion {tables : HostTables} {raw host : List Char} :
    tables.canonical raw = some host ↔ tables.isCompatibilityMapped raw = true ∧
      IsOnion (tables.lowercased raw) ∧ host = tables.lowercased raw := by
  cases hmapped : tables.isCompatibilityMapped raw with
  | false => simp [HostTables.canonical, hmapped]
  | true =>
    rw [HostTables.canonical, hmapped]
    simp only [Bool.not_true, Bool.false_eq_true, if_false, true_and]
    generalize tables.lowercased raw = lowered
    constructor
    · intro h
      split at h
      · cases h
      · split at h
        · next label suffix hsplit =>
          split at h
          · cases h
          next hsuffix =>
            split at h
            · cases h
            next hlen =>
              split at h
              · cases h
              next halphabet =>
                rw [not_not] at hsuffix hlen
                refine ⟨⟨label, hsuffix ▸ eq_of_splitOn hsplit, hlen, fun c hc => ?_⟩,
                  (Option.some.inj h).symm⟩
                by_contra hnot
                refine halphabet (List.any_eq_true.mpr ⟨c, hc, ?_⟩)
                rw [Bool.not_eq_true', ← Bool.not_eq_true, List.contains_iff_mem]
                exact hnot
        · cases h
    · rintro ⟨honion, rfl⟩
      have hprintable : ¬ (host.any fun ch => ch.toNat < 0x21 || ch.toNat > 0x7E) = true := by
        intro hany
        obtain ⟨c, hc, hbad⟩ := List.any_eq_true.mp hany
        have hc := honion.printable hc
        simp only [Bool.or_eq_true, decide_eq_true_eq] at hbad
        omega
      obtain ⟨label, rfl, hlen, halphabet⟩ := honion
      have hlabel : ¬ (label.any fun ch => !onionAlphabet.contains ch) = true := by
        intro hany
        obtain ⟨c, hc, hbad⟩ := List.any_eq_true.mp hany
        rw [Bool.not_eq_true', ← Bool.not_eq_true, List.contains_iff_mem] at hbad
        exact hbad (halphabet c hc)
      rw [if_neg hprintable, splitOn_onion halphabet]
      show (if "onion".toList ≠ "onion".toList then none
        else if label.length ≠ 56 then none
        else if (label.any fun ch => !onionAlphabet.contains ch) = true then none
        else some _) = _
      rw [if_neg (not_not_intro rfl), if_neg (not_not_intro hlen), if_neg hlabel]

/-! ## The name as it was given -/

/-- A statement about every ASCII scalar is a finite check. -/
theorem forall_ascii {P : Char → Prop} (h : ∀ n : Fin 128, P (Char.ofNat n)) {c : Char}
    (hc : c.toNat < 128) : P c := by
  have hn := h ⟨c.toNat, hc⟩
  rwa [Char.ofNat_toNat] at hn

/-- A name in ASCII is an onion name when its lower case is. -/
theorem asciiOnion_iff {raw : List Char} (hascii : ∀ c ∈ raw, c.toNat < 128) :
    AsciiOnion raw ↔ IsOnion (raw.map Char.toLower) := by
  have hletter : ∀ {c : Char}, c.toNat < 128 → (c.toLower ∈ onionAlphabet ↔
      'A' ≤ c ∧ c ≤ 'Z' ∨ 'a' ≤ c ∧ c ≤ 'z' ∨ '2' ≤ c ∧ c ≤ '7') := by
    intro c hc
    refine forall_ascii (P := fun c => c.toLower ∈ onionAlphabet ↔
      'A' ≤ c ∧ c ≤ 'Z' ∨ 'a' ≤ c ∧ c ≤ 'z' ∨ '2' ≤ c ∧ c ≤ '7') ?_ hc
    decide +kernel
  have hdot : ∀ {c : Char}, c.toNat < 128 → c.toLower = '.' → c = '.' := by
    intro c hc
    refine forall_ascii (P := fun c => c.toLower = '.' → c = '.') ?_ hc
    decide +kernel
  constructor
  · rintro ⟨-, label, suffix, rfl, hlen, hlabel, hsuffix⟩
    refine ⟨label.map Char.toLower, ?_, by rw [List.length_map, hlen], fun c hc => ?_⟩
    · rw [List.map_append, List.map_cons, hsuffix]
      rfl
    · obtain ⟨d, hd, rfl⟩ := List.mem_map.mp hc
      exact (hletter (hascii d (List.mem_append_left _ hd))).mpr (hlabel d hd)
  · rintro ⟨lowered, heq, hlen, halphabet⟩
    obtain ⟨label, rest, rfl, rfl, hrest⟩ := List.map_eq_append_iff.mp heq
    obtain ⟨dot, suffix, rfl, hlow, hsuffix⟩ := List.map_eq_cons_iff.mp hrest
    have hsame : dot = '.' := hdot (hascii dot (by simp)) hlow
    subst hsame
    rw [List.length_map] at hlen
    refine ⟨hascii, label, suffix, rfl, hlen, fun c hc => ?_, hsuffix⟩
    exact (hletter (hascii c (List.mem_append_left _ hc))).mp
      (halphabet _ (List.mem_map_of_mem hc))

/-! ## What is let through -/

section

variable {tables : HostTables} (hstandard : tables.Standard)
include hstandard

/-- What is let through is an onion name, or a look-alike of one. -/
theorem canonical_eq_some_iff {raw host : List Char} : tables.canonical raw = some host ↔
    AsciiOnion (withoutKelvin raw) ∧ host = (withoutKelvin raw).map Char.toLower := by
  by_cases hfolds : ∀ c ∈ raw, c.toNat < 128 ∨ c = kelvinSign
  · have hascii : ∀ c ∈ withoutKelvin raw, c.toNat < 128 := by
      intro c hc
      obtain ⟨d, hd, rfl⟩ := List.mem_map.mp hc
      split
      · decide
      · next hnot => exact (hfolds d hd).resolve_right hnot
    rw [canonical_eq_some_iff_isOnion, hstandard.mapped hfolds, hstandard.lowercased hfolds,
      asciiOnion_iff hascii]
    exact and_iff_right rfl
  · -- some scalar is neither ASCII nor the Kelvin sign
    simp only [not_forall] at hfolds
    obtain ⟨c, hc, hother⟩ := hfolds
    refine iff_of_false (fun h => ?_) fun h => ?_
    · obtain ⟨-, honion, -⟩ := canonical_eq_some_iff_isOnion.mp h
      obtain ⟨d, hd, hlarge⟩ := hstandard.other hc hother
      have hprintable := honion.printable hd
      omega
    · have hmem : c ∈ withoutKelvin raw :=
        List.mem_map.mpr ⟨c, hc, if_neg fun heq => hother (.inr heq)⟩
      exact hother (.inl (h.1.1 c hmem))

end

theorem withoutKelvin_eq_self {raw : List Char} (h : kelvinSign ∉ raw) : withoutKelvin raw = raw := by
  have hid : ∀ c ∈ raw, (if c = kelvinSign then 'K' else c) = c := by
    intro c hc
    refine if_neg ?_
    rintro rfl
    exact h hc
  rw [withoutKelvin, List.map_congr_left hid, List.map_id']

theorem AsciiOnion.kelvin_notMem {raw : List Char} (h : AsciiOnion raw) : kelvinSign ∉ raw :=
  fun hmem => absurd (h.1 _ hmem) (by decide)

/-- The lower case of an onion name is an onion name, and its own lower case. -/
theorem AsciiOnion.lower {raw : List Char} (h : AsciiOnion raw) :
    AsciiOnion (raw.map Char.toLower) ∧ (raw.map Char.toLower).map Char.toLower =
      raw.map Char.toLower := by
  have hone : ∀ {c : Char}, c.toNat < 128 → c.toLower.toNat < 128 ∧ c.toLower.toLower = c.toLower := by
    intro c hc
    refine forall_ascii (P := fun c => c.toLower.toNat < 128 ∧ c.toLower.toLower = c.toLower) ?_ hc
    decide +kernel
  have hsame : (raw.map Char.toLower).map Char.toLower = raw.map Char.toLower := by
    rw [List.map_map]
    exact List.map_congr_left fun c hc => (hone (h.1 c hc)).2
  have hascii : ∀ c ∈ raw.map Char.toLower, c.toNat < 128 := by
    intro c hc
    obtain ⟨d, hd, rfl⟩ := List.mem_map.mp hc
    exact (hone (h.1 d hd)).1
  refine ⟨?_, hsame⟩
  rw [asciiOnion_iff hascii, hsame, ← asciiOnion_iff h.1]
  exact h

/-- `canonical` does on `raw` what its comment says: it lets through exactly ASCII onion
names, in lower case, is idempotent, and only identifies names that differ in letter case. -/
structure AcceptsAscii (tables : HostTables) (raw : List Char) : Prop where
  accepts : (tables.canonical raw).isSome ↔ AsciiOnion raw
  lower : ∀ host, tables.canonical raw = some host → host = raw.map Char.toLower
  again : ∀ host, tables.canonical raw = some host → tables.canonical host = some host
  same : ∀ other host, ¬ KelvinOnion other → tables.canonical raw = some host →
    tables.canonical other = some host → other.map Char.toLower = raw.map Char.toLower

/-- It does so exactly on what is no look-alike with a Kelvin sign. -/
theorem acceptsAscii_iff {tables : HostTables} (hstandard : tables.Standard) (raw : List Char) :
    AcceptsAscii tables raw ↔ ¬ KelvinOnion raw := by
  constructor
  · rintro h ⟨hkelvin, honion⟩
    have hsome := (canonical_eq_some_iff hstandard).mpr ⟨honion, rfl⟩
    have hascii : AsciiOnion raw := h.accepts.mp (by rw [hsome]; rfl)
    exact hascii.kelvin_notMem hkelvin
  · intro hnot
    -- what is let through has no Kelvin sign in it
    have hplain : ∀ {name host : List Char}, ¬ KelvinOnion name →
        tables.canonical name = some host → AsciiOnion name ∧ host = name.map Char.toLower := by
      intro name host hname h
      obtain ⟨honion, rfl⟩ := (canonical_eq_some_iff hstandard).mp h
      have hclean : kelvinSign ∉ name := fun hmem => hname ⟨hmem, honion⟩
      rw [withoutKelvin_eq_self hclean] at honion ⊢
      exact ⟨honion, rfl⟩
    have haccepted : ∀ {name : List Char}, AsciiOnion name →
        tables.canonical name = some (name.map Char.toLower) := by
      intro name honion
      have hsame := withoutKelvin_eq_self honion.kelvin_notMem
      rw [canonical_eq_some_iff hstandard, hsame]
      exact ⟨honion, rfl⟩
    refine ⟨⟨fun h => ?_, fun honion => ?_⟩, fun host h => (hplain hnot h).2, fun host h => ?_,
      fun other host hother h hsame => ?_⟩
    · obtain ⟨host, hhost⟩ := Option.isSome_iff_exists.mp h
      exact (hplain hnot hhost).1
    · rw [haccepted honion]
      rfl
    · obtain ⟨honion, rfl⟩ := hplain hnot h
      have hagain := haccepted honion.lower.1
      rwa [honion.lower.2] at hagain
    · rw [← (hplain hnot h).2, ← (hplain hother hsame).2]

/-! ## A look-alike -/

/-- The tables on texts of ASCII and Kelvin signs. -/
def foldTables : HostTables where
  isCompatibilityMapped raw := raw.all fun c => c.toNat < 128 || c = kelvinSign
  lowercased raw := (withoutKelvin raw).map Char.toLower

theorem standard_foldTables : foldTables.Standard where
  mapped h := List.all_eq_true.mpr fun c hc => by simpa using h c hc
  lowercased _ := rfl
  other := by
    intro raw c hc hother
    rw [not_or] at hother
    have hlow : c.toLower = c := by
      refine dif_neg fun hletter => hother.1 ?_
      have hle : c.toNat ≤ 90 := hletter.2
      omega
    refine ⟨c, ?_, by omega⟩
    refine List.mem_map.mpr ⟨c, List.mem_map.mpr ⟨c, hc, if_neg hother.2⟩, hlow⟩

/-- An onion name with a `k` at the end of its label. -/
def sampleOnion (k : Char) : List Char := List.replicate 55 'a' ++ [k] ++ ".onion".toList

theorem acceptsAscii_sampleOnion :
    AcceptsAscii foldTables (sampleOnion 'K') ↔ ¬ KelvinOnion (sampleOnion 'K') :=
  acceptsAscii_iff standard_foldTables (sampleOnion 'K')

/-- With the Kelvin sign for its `K` the name is let through as the same host. -/
theorem canonical_accepts_kelvin :
    foldTables.canonical (sampleOnion kelvinSign) = some (sampleOnion 'k') ∧
      ¬ AsciiOnion (sampleOnion kelvinSign) ∧
      (sampleOnion kelvinSign).map Char.toLower ≠ sampleOnion 'k' := by
  refine ⟨by decide +kernel, fun h => h.kelvin_notMem ?_, by decide +kernel⟩
  decide +kernel

end Pizzini.Client
