import Pizzini.Attachments.FilenameSanitizer
import Mathlib.Data.Bool.AllAny
import Mathlib.Data.List.Induction
import Pizzini.Lib.Trim

/-!
# Which names are sanitized for good

`sanitize` is meant to be idempotent and to give a plain file name. Each of its steps runs
once, and a later one can bring back what an earlier one took away: the trim uncovers a dot,
the length cap a blank or an empty stem, and the cap counts characters instead of bytes once
the extension alone fills the name. `sanitized_iff` says exactly when none of this happens.

Two strings are equal when they are canonically equivalent. What the proofs use of the
canonical composition is `Canonical`; removing a scalar from a composed text can leave a text
that is not composed, and composing it again can make it longer.
-/

namespace Pizzini.Attachments

open Trim

/-! ## Canonical composition -/

/-- The text is its own canonical composition. -/
def Foundation.Composed (F : Foundation) (text : List Char) : Prop := F.precomposed text = text

namespace FilenameSanitizer

/-- Facts of the Unicode standard about characters and canonical composition. -/
structure Canonical (F : Foundation) : Prop where
  flatten_characters : ∀ text, (F.characters text).flatten = text
  nil_notMem_characters : ∀ text, [] ∉ F.characters text
  composed : ∀ text, F.Composed (F.precomposed text)
  ascii : ∀ {text : List Char}, (∀ c ∈ text, c.toNat < 128) → F.Composed text
  /-- Composed texts are closed under substrings, -/
  substring : ∀ {part text}, part <:+: text → F.Composed text → F.Composed part
  /-- and may be joined in front of a dot, which composes with nothing. -/
  join : ∀ {text rest}, F.Composed text → F.Composed ('.' :: rest) → F.Composed (text ++ '.' :: rest)
  /-- No scalar that is stripped comes out of a composition, -/
  keeps : ∀ {text : List Char}, (∀ c ∈ text, keeps c) → ∀ c ∈ F.precomposed text, keeps c
  /-- and neither does a dot or a blank. -/
  head_dot : ∀ text, (F.precomposed text).head? = some '.' ↔ text.head? = some '.'
  head_blank : ∀ text, (F.precomposed text).head?.any isWhitespace = text.head?.any isWhitespace
  last_blank : ∀ text, (F.precomposed text).getLast?.any isWhitespace = text.getLast?.any isWhitespace
  eq_nil : ∀ {text}, F.precomposed text = [] → text = []

/-! ## Sizes -/

@[simp] theorem utf8Count_nil : utf8Count [] = 0 := rfl

@[simp] theorem utf8Count_append (a b : List Char) :
    utf8Count (a ++ b) = utf8Count a + utf8Count b := by
  rw [utf8Count, List.map_append, List.sum_append, utf8Count, utf8Count]

theorem utf8Count_dot (text : List Char) : utf8Count ('.' :: text) = 1 + utf8Count text := rfl

/-- The longest run of characters from the front that takes at most `budget` bytes. -/
def fitting : Nat → List (List Char) → List (List Char)
  | _, [] => []
  | budget, c :: rest =>
    if utf8Count c ≤ budget then c :: fitting (budget - utf8Count c) rest else []

theorem fitting_isPrefix : ∀ (budget : Nat) (name : List (List Char)), fitting budget name <+: name
  | _, [] => List.prefix_refl []
  | budget, c :: rest => by
    rw [fitting]
    split
    · exact List.cons_prefix_cons.mpr ⟨rfl, fitting_isPrefix _ rest⟩
    · exact List.nil_prefix

theorem utf8Count_fitting : ∀ (budget : Nat) (name : List (List Char)),
    utf8Count (fitting budget name).flatten ≤ budget
  | _, [] => Nat.zero_le _
  | budget, c :: rest => by
    rw [fitting]
    split
    · have hrest := utf8Count_fitting (budget - utf8Count c) rest
      rw [List.flatten_cons, utf8Count_append]
      omega
    · exact Nat.zero_le budget

/-- What fits stays whole. -/
theorem fitting_eq_self {budget : Nat} : ∀ {name : List (List Char)},
    utf8Count name.flatten ≤ budget → fitting budget name = name := by
  intro name
  induction name generalizing budget with
  | nil => exact fun _ => rfl
  | cons c rest ih =>
    intro h
    rw [List.flatten_cons, utf8Count_append] at h
    rw [fitting, if_pos (by omega), ih (by omega)]

/-- A character at the end that does not fit is not part of the run. -/
theorem fitting_concat {budget : Nat} {name : List (List Char)} {c : List Char}
    (h : budget < utf8Count (name ++ [c]).flatten) :
    fitting budget (name ++ [c]) = fitting budget name := by
  induction name generalizing budget with
  | nil =>
    rw [List.nil_append, List.flatten_singleton] at h
    exact if_neg (Nat.not_le.mpr h)
  | cons d rest ih =>
    rw [List.cons_append, fitting, fitting]
    split
    · rw [ih]
      rw [List.cons_append, List.flatten_cons, utf8Count_append] at h
      omega
    · rfl

theorem utf8Count_flatten_reverse (name : List (List Char)) :
    utf8Count name.reverse.flatten = utf8Count name.flatten := by
  induction name with
  | nil => rfl
  | cons c rest ih =>
    rw [List.reverse_cons, List.flatten_append, utf8Count_append, ih, List.flatten_singleton,
      List.flatten_cons, utf8Count_append, Nat.add_comm]

/-- The loop from the back leaves the run from the front. -/
theorem truncateStem_eq_fitting (budget : Nat) (stem : List (List Char)) :
    (truncateStem budget stem.reverse).reverse = fitting budget stem := by
  induction stem using List.reverseRecOn with
  | nil => rfl
  | append_singleton stem c ih =>
    have hsize : utf8Count (c :: stem.reverse).flatten = utf8Count (stem ++ [c]).flatten := by
      rw [← utf8Count_flatten_reverse (stem ++ [c]), List.reverse_append, List.reverse_singleton,
        List.singleton_append]
    rw [List.reverse_append, List.reverse_singleton, List.singleton_append, truncateStem, hsize]
    split
    · next hlong => rw [ih, fitting_concat hlong]
    · next hfits =>
      rw [fitting_eq_self (Nat.not_lt.mp hfits), List.reverse_cons, List.reverse_reverse]

/-! ## The length cap -/

/-- The bytes of the extension and its dot. -/
def extensionBytes (name : List (List Char)) : Nat :=
  ((trailingExtension name).map fun ext => 1 + utf8Count ext.flatten).getD 0

/-- The cap leaves the name as it is: it is short enough, or its extension alone fills the
cap and it has few characters. -/
def CapIdle (name : List (List Char)) : Prop :=
  utf8Count name.flatten ≤ maxLength ∨ maxLength ≤ extensionBytes name ∧ name.length ≤ maxLength

theorem trailingExtension_eq_some {name ext : List (List Char)}
    (h : trailingExtension name = some ext) :
    ext ≠ [] ∧ name = name.take (name.length - (ext.length + 1)) ++ ['.'] :: ext := by
  simp only [trailingExtension] at h
  split at h
  · cases h
  next hlen =>
    split at h
    · cases h
    next hne =>
      cases h
      refine ⟨hne, ?_⟩
      generalize htaken : name.reverse.takeWhile (fun c => decide (c ≠ ['.'])) = taken at *
      have hsplit : name.reverse = taken ++ name.reverse.dropWhile (fun c => decide (c ≠ ['.'])) := by
        rw [← htaken, List.takeWhile_append_dropWhile]
      have hhead := List.head?_dropWhile_not (fun c => decide (c ≠ ['.'])) name.reverse
      cases hdropped : name.reverse.dropWhile (fun c => decide (c ≠ ['.'])) with
      | nil =>
        rw [hdropped, List.append_nil] at hsplit
        rw [List.length_reverse, ← hsplit] at hlen
        exact absurd List.length_reverse hlen
      | cons d rest =>
        rw [hdropped] at hsplit hhead
        have hdot : d = ['.'] := by simpa using hhead
        subst hdot
        have hname : name = rest.reverse ++ ['.'] :: taken.reverse := by
          rw [← List.reverse_reverse name, hsplit]
          simp
        have hstem : name.length - (taken.reverse.length + 1) = rest.reverse.length := by
          rw [hname, List.length_append, List.length_cons]
          omega
        rw [hstem]
        conv_lhs => rw [hname]
        rw [hname, List.take_left]

/-- The three branches of the cap, in terms of what fits. -/
theorem capLength_eq (name : List (List Char)) : capLength name =
    if utf8Count name.flatten ≤ maxLength then name.flatten
    else match trailingExtension name with
      | none => (fitting maxLength name).flatten
      | some ext =>
        if 1 + utf8Count ext.flatten < maxLength then
          (fitting (maxLength - (1 + utf8Count ext.flatten))
            (name.take (name.length - (ext.length + 1)))).flatten ++ '.' :: ext.flatten
        else (name.take maxLength).flatten := by
  rw [capLength]
  split
  · rfl
  · cases hext : trailingExtension name with
    | none =>
      show (if utf8Count [] < maxLength then (truncateStem (maxLength - utf8Count []) name.reverse).reverse.flatten ++ []
        else (name.take maxLength).flatten) = _
      rw [if_pos (by decide), truncateStem_eq_fitting, List.append_nil]
      rfl
    | some ext =>
      simp only [Option.map_some, Option.getD_some, utf8Count_dot, truncateStem_eq_fitting]

/-- An idle cap changes nothing, any other takes something away. -/
theorem capLength_eq_flatten_iff {name : List (List Char)} (hne : [] ∉ name) :
    capLength name = name.flatten ↔ CapIdle name := by
  rw [capLength_eq, CapIdle, extensionBytes]
  split
  · next hshort => exact ⟨fun _ => .inl hshort, fun _ => rfl⟩
  next hlong =>
    have hcut : ∀ {text : List Char}, utf8Count text ≤ maxLength → text ≠ name.flatten := by
      rintro text hfits rfl
      exact hlong hfits
    cases hext : trailingExtension name with
    | none =>
      refine ⟨fun h => absurd h (hcut (utf8Count_fitting _ _)), ?_⟩
      rintro (hshort | ⟨hfull, -⟩)
      · exact absurd hshort hlong
      · cases hfull
    | some ext =>
      simp only [Option.map_some, Option.getD_some]
      split
      · next hroom =>
        have hfits := utf8Count_fitting (maxLength - (1 + utf8Count ext.flatten))
          (name.take (name.length - (ext.length + 1)))
        refine ⟨fun h => absurd h (hcut ?_), ?_⟩
        · rw [utf8Count_append, utf8Count_dot]
          omega
        · rintro (hshort | ⟨hfull, -⟩)
          · exact absurd hshort hlong
          · omega
      · next hfull =>
        constructor
        · intro h
          refine .inr ⟨Nat.not_lt.mp hfull, ?_⟩
          by_contra hmany
          -- a character behind the 255th would be missing
          have hsplit : (name.take maxLength).flatten ++ (name.drop maxLength).flatten =
              name.flatten := by
            rw [← List.flatten_append, List.take_append_drop]
          rw [h] at hsplit
          have hrest : (name.drop maxLength).flatten = [] := List.append_right_eq_self.mp hsplit
          cases hdrop : name.drop maxLength with
          | nil => exact absurd (List.drop_eq_nil_iff.mp hdrop) hmany
          | cons c rest =>
            rw [hdrop, List.flatten_cons, List.append_eq_nil_iff] at hrest
            have hmem : c ∈ name := List.mem_of_mem_drop (hdrop ▸ List.mem_cons_self)
            exact hne (hrest.1 ▸ hmem)
        · rintro (hshort | ⟨-, hfew⟩)
          · exact absurd hshort hlong
          · rw [List.take_of_length_le hfew]

theorem length_capLength_le (name : List (List Char)) :
    (capLength name).length ≤ name.flatten.length := by
  have hfit : ∀ (budget : Nat) (part : List (List Char)),
      (fitting budget part).flatten.length ≤ part.flatten.length := by
    intro budget part
    exact (fitting_isPrefix budget part).flatten.length_le
  rw [capLength_eq]
  split
  · exact Nat.le_refl _
  · split
    · exact hfit _ _
    · next ext hext =>
      obtain ⟨-, hname⟩ := trailingExtension_eq_some hext
      split
      · have hstem := hfit (maxLength - (1 + utf8Count ext.flatten))
          (name.take (name.length - (ext.length + 1)))
        conv_rhs => rw [hname]
        simp only [List.flatten_append, List.flatten_cons, List.length_append, List.length_cons,
          List.length_nil]
        omega
      · exact (List.take_prefix _ _).flatten.length_le

/-! ## Sanitizing a clean name -/

variable {F : Foundation} (hF : Canonical F)
include hF

/-- The name with the cap on it is composed if the name is. -/
theorem composed_capLength {text : List Char} (h : F.Composed text) :
    F.Composed (capLength (F.characters text)) := by
  have hpart : ∀ {part : List (List Char)}, part <+: F.characters text → F.Composed part.flatten := by
    intro part hpart
    have hflat := hpart.flatten
    rw [hF.flatten_characters] at hflat
    exact hF.substring hflat.isInfix h
  rw [capLength_eq]
  split
  · rwa [hF.flatten_characters]
  · split
    · exact hpart (fitting_isPrefix _ _)
    · next ext hext =>
      obtain ⟨-, hname⟩ := trailingExtension_eq_some hext
      split
      · refine hF.join (hpart ((fitting_isPrefix _ _).trans (List.take_prefix _ _))) ?_
        have hsuffix : '.' :: ext.flatten <:+ text := by
          rw [← hF.flatten_characters text, hname, List.flatten_append]
          exact List.suffix_append _ _
        exact hF.substring hsuffix.isInfix h
      · exact hpart (List.take_prefix _ _)

/-- What `sanitize` does to a name of kept scalars that begins with neither a dot nor a
blank. -/
theorem sanitize_of_clean {name : List Char} (hkeeps : ∀ c ∈ name, keeps c) (hne : name ≠ [])
    (hdot : name.head? ≠ some '.') (hblank : name.head?.any isWhitespace = false) :
    sanitize F (String.ofList name) =
      String.ofList (capLength (F.characters (trim (F.precomposed name)))) := by
  have hdot' : (F.precomposed name).head? ≠ some '.' := fun h => hdot ((hF.head_dot name).mp h)
  have hblank' : (F.precomposed name).head?.any isWhitespace = false := by
    rwa [hF.head_blank]
  have hscrub : (F.precomposed name).filter keeps = F.precomposed name :=
    List.filter_eq_self.mpr (hF.keeps hkeeps)
  have hchars : (F.characters (F.precomposed name)).dropWhile (· = ['.']) =
      F.characters (F.precomposed name) := by
    refine dropWhile_eq_self ?_
    have hflat := hF.flatten_characters (F.precomposed name)
    cases hcs : F.characters (F.precomposed name) with
    | nil => rfl
    | cons c rest =>
      refine decide_eq_false ?_
      rintro rfl
      rw [hcs] at hflat
      exact hdot' (by rw [← hflat]; rfl)
  -- something is left, and it begins as the name does
  have htrim : trim (F.precomposed name) <+: F.precomposed name := trimming_isPrefix hblank'
  have hleft : trim (F.precomposed name) ≠ [] :=
    fun hnil => hne (hF.eq_nil (trimming_eq_nil hblank' hnil))
  have hfirst : (trim (F.precomposed name)).head? ≠ some '.' := by
    rwa [head?_of_isPrefix htrim hleft]
  have hnotDot : ¬ (trim (F.precomposed name) = ['.'] ∨ trim (F.precomposed name) = ['.', '.']) := by
    rintro (h | h) <;> rw [h] at hfirst <;> exact hfirst rfl
  rw [sanitize]
  simp only [String.toList_ofList, hscrub, hchars, hF.flatten_characters, if_neg hleft,
    if_neg hnotDot]

/-- Such a name is sanitized for good exactly when no blank ends it and the cap has nothing
to do on it. -/
theorem sanitize_again_iff {name : List Char} (hkeeps : ∀ c ∈ name, keeps c) (hne : name ≠ [])
    (hdot : name.head? ≠ some '.') (hblank : name.head?.any isWhitespace = false) :
    F.precomposed (sanitize F (String.ofList name)).toList = F.precomposed name ↔
      name.getLast?.any isWhitespace = false ∧ CapIdle (F.characters (F.precomposed name)) := by
  have hblank' : (F.precomposed name).head?.any isWhitespace = false := by
    rwa [hF.head_blank]
  have htrim : trim (F.precomposed name) <+: F.precomposed name := trimming_isPrefix hblank'
  have hends : trim (F.precomposed name) = F.precomposed name ↔
      (F.precomposed name).getLast?.any isWhitespace = false := trimming_eq_self_iff hblank'
  have hcomposed : F.Composed (capLength (F.characters (trim (F.precomposed name)))) :=
    composed_capLength hF (hF.substring htrim.isInfix (hF.composed name))
  rw [sanitize_of_clean hF hkeeps hne hdot hblank, String.toList_ofList, hcomposed,
    ← hF.last_blank, ← hends, ← capLength_eq_flatten_iff
      (hF.nil_notMem_characters _), hF.flatten_characters]
  constructor
  · intro h
    have hlen : (F.precomposed name).length ≤ (trim (F.precomposed name)).length := by
      have hcap := length_capLength_le (F.characters (trim (F.precomposed name)))
      rwa [h, hF.flatten_characters] at hcap
    have hsame : trim (F.precomposed name) = F.precomposed name := htrim.eq_of_length_le hlen
    rw [hsame] at h
    exact ⟨hsame, h⟩
  · rintro ⟨hsame, hidle⟩
    rw [hsame, hidle]

omit hF

/-! ## What a sanitized name should be -/

/-- A plain file name. -/
structure Plain (name : List Char) : Prop where
  ne_nil : name ≠ []
  no_dot : name.head? ≠ some '.'
  not_dots : name ≠ ['.'] ∧ name ≠ ['.', '.']
  scalars : ∀ c ∈ name, c ≠ '/' ∧ c ≠ '\\' ∧ 0x20 ≤ c.toNat ∧ c.toNat ≠ 0x7F ∧
    ¬ (0x202A ≤ c.toNat ∧ c.toNat ≤ 0x202E) ∧ ¬ (0x2066 ≤ c.toNat ∧ c.toNat ≤ 0x2069)
  short : utf8Count name ≤ 255

variable (F)

/-- `sanitize` gives a plain name and leaves it alone. -/
def Sanitized (raw : String) : Prop :=
  Plain (sanitize F raw).toList ∧
    F.precomposed (sanitize F (sanitize F raw)).toList = F.precomposed (sanitize F raw).toList

/-- The scrubbed and trimmed name, as it comes to the length cap. -/
def cleaned (raw : String) : List Char :=
  trim ((F.characters ((F.precomposed raw.toList).filter keeps)).dropWhile (· = ['.'])).flatten

/-- No blank ends the text, and composing it again does not make it too long. -/
def Settled (text : List Char) : Prop :=
  text.getLast?.any isWhitespace = false ∧ CapIdle (F.characters (F.precomposed text))

/-- What the length cap leaves of a name is settled: of a long name without an extension,
the characters that fit; with one, those that fit in front of it, of which there is at least
one; with one that fills the cap, the first 255 characters, when they are bytes. -/
def SurvivesCap (name : List (List Char)) : Prop :=
  if utf8Count name.flatten ≤ maxLength then Settled F name.flatten
  else match trailingExtension name with
    | none => fitting maxLength name ≠ [] ∧ Settled F (fitting maxLength name).flatten
    | some ext =>
      if 1 + utf8Count ext.flatten < maxLength then
        let stem := fitting (maxLength - (1 + utf8Count ext.flatten))
          (name.take (name.length - (ext.length + 1)))
        stem ≠ [] ∧ Settled F (stem.flatten ++ '.' :: ext.flatten)
      else
        utf8Count (name.take maxLength).flatten ≤ maxLength ∧
          Settled F (name.take maxLength).flatten

/-- Nothing but dots is left of the name, or no dot begins it and it survives the cap. -/
def StaysClean (raw : String) : Prop :=
  cleaned F raw = [] ∨ cleaned F raw = ['.'] ∨ cleaned F raw = ['.', '.'] ∨
    (cleaned F raw).head? ≠ some '.' ∧ SurvivesCap F (F.characters (cleaned F raw))

variable {F}

theorem keeps_iff {c : Char} : keeps c = true ↔ c ≠ '/' ∧ c ≠ '\\' ∧ 0x20 ≤ c.toNat ∧
    c.toNat ≠ 0x7F ∧ ¬ (0x202A ≤ c.toNat ∧ c.toNat ≤ 0x202E) ∧
      ¬ (0x2066 ≤ c.toNat ∧ c.toNat ≤ 0x2069) := by
  simp only [keeps, Bool.and_eq_true, Bool.not_eq_true', Bool.or_eq_false_iff, Bool.and_eq_false_iff,
    decide_eq_false_iff_not, beq_eq_false_iff_ne, ne_eq]
  constructor
  · rintro ⟨⟨⟨hover, hisolate⟩, ⟨hslash, hback⟩, -⟩, hcontrol, hdel⟩
    exact ⟨hslash, hback, by omega, hdel, by omega, by omega⟩
  · rintro ⟨hslash, hback, hcontrol, hdel, hover, hisolate⟩
    exact ⟨⟨⟨by omega, by omega⟩, ⟨hslash, hback⟩, by omega⟩, by omega, hdel⟩

include hF

/-- A sanitized name that begins with neither a dot nor a blank. -/
theorem sanitized_iff_settled {raw : String} {name : List Char}
    (hname : (sanitize F raw).toList = name) (hne : name ≠ []) (hdot : name.head? ≠ some '.')
    (hblank : name.head?.any isWhitespace = false) :
    Sanitized F raw ↔ utf8Count name ≤ maxLength ∧ Settled F name := by
  have hkeeps : ∀ c ∈ name, keeps c := by
    intro c hc
    exact keeps_of_mem_sanitize hF.flatten_characters raw (hname ▸ hc)
  have hofList : sanitize F raw = String.ofList name := by
    rw [← hname, String.ofList_toList]
  rw [Sanitized, hofList, String.toList_ofList, sanitize_again_iff hF hkeeps hne hdot hblank]
  refine and_congr_left fun _ => ⟨Plain.short, fun hshort => ?_⟩
  refine ⟨hne, hdot, ⟨?_, ?_⟩, fun c hc => keeps_iff.mp (hkeeps c hc), hshort⟩
  · rintro rfl
    exact hdot rfl
  · rintro rfl
    exact hdot rfl

/-- Characters at the front begin as the text does. -/
theorem front {text : List Char} {part : List (List Char)} (h : part <+: F.characters text)
    (hne : part ≠ []) : part.flatten ≠ [] ∧ part.flatten.head? = text.head? := by
  have hflat : part.flatten <+: text := by
    have hprefix := h.flatten
    rwa [hF.flatten_characters] at hprefix
  have hnonempty : part.flatten ≠ [] := by
    cases part with
    | nil => exact absurd rfl hne
    | cons c part =>
      intro hnil
      rw [List.flatten_cons, List.append_eq_nil_iff] at hnil
      exact hF.nil_notMem_characters text (hnil.1 ▸ h.subset List.mem_cons_self)
  exact ⟨hnonempty, head?_of_isPrefix hflat hnonempty⟩

/-- The cap leaves a dot in front where it finds one. -/
theorem capLength_dot {text : List Char} (hdot : text.head? = some '.') :
    capLength (F.characters text) = [] ∨ (capLength (F.characters text)).head? = some '.' := by
  have hpart : ∀ {part : List (List Char)}, part <+: F.characters text →
      part.flatten = [] ∨ part.flatten.head? = some '.' := by
    intro part h
    by_cases hne : part = []
    · exact .inl (by rw [hne, List.flatten_nil])
    · exact .inr ((front hF h hne).2.trans hdot)
  rw [capLength_eq]
  split
  · exact .inr (by rwa [hF.flatten_characters])
  · split
    · exact hpart (fitting_isPrefix _ _)
    · split
      · refine .inr ?_
        rcases hpart ((fitting_isPrefix _ _).trans (List.take_prefix _ _)) with hnil | hhead
        · rw [hnil]
          rfl
        · rw [List.head?_append, hhead]
          rfl
      · exact hpart (List.take_prefix _ _)

/-- A cleaned name that begins without a dot is sanitized for good when it survives the cap. -/
theorem sanitized_iff_survivesCap {raw : String} {text : List Char}
    (hcap : (sanitize F raw).toList = capLength (F.characters text)) (hne : text ≠ [])
    (hdot : text.head? ≠ some '.') (hblank : text.head?.any isWhitespace = false) :
    Sanitized F raw ↔ SurvivesCap F (F.characters text) := by
  -- a part that begins as the text does
  have hpart : ∀ {name : List Char}, (sanitize F raw).toList = name → name ≠ [] →
      name.head? = text.head? → (Sanitized F raw ↔ utf8Count name ≤ maxLength ∧ Settled F name) :=
    fun hname hnonempty hhead => sanitized_iff_settled hF hname hnonempty (by rwa [hhead])
      (by rwa [hhead])
  rw [capLength_eq] at hcap
  rw [SurvivesCap]
  split at hcap
  · next hshort =>
    rw [if_pos hshort, hF.flatten_characters]
    rw [hF.flatten_characters] at hcap hshort
    rw [hpart hcap hne rfl]
    exact and_iff_right hshort
  next hlong =>
    rw [if_neg hlong]
    cases hext : trailingExtension (F.characters text) with
    | none =>
      rw [hext] at hcap
      dsimp only at hcap ⊢
      by_cases hnil : fitting maxLength (F.characters text) = []
      · rw [hnil] at hcap
        exact iff_of_false (fun h => h.1.ne_nil hcap) fun h => h.1 hnil
      · obtain ⟨hnonempty, hhead⟩ := front hF (fitting_isPrefix _ _) hnil
        rw [hpart hcap hnonempty hhead, and_iff_right (utf8Count_fitting _ _)]
        exact (and_iff_right hnil).symm
    | some ext =>
      rw [hext] at hcap
      dsimp only at hcap ⊢
      split at hcap
      · next hroom =>
        rw [if_pos hroom]
        generalize hstem : fitting (maxLength - (1 + utf8Count ext.flatten))
          ((F.characters text).take ((F.characters text).length - (ext.length + 1))) = stem at hcap ⊢
        have hfits : utf8Count stem.flatten ≤ maxLength - (1 + utf8Count ext.flatten) := by
          rw [← hstem]
          exact utf8Count_fitting _ _
        by_cases hnil : stem = []
        · rw [hnil] at hcap
          refine iff_of_false (fun h => h.1.no_dot ?_) fun h => h.1 hnil
          rw [hcap]
          rfl
        · have hfront : stem <+: F.characters text := by
            rw [← hstem]
            exact (fitting_isPrefix _ _).trans (List.take_prefix _ _)
          obtain ⟨hnonempty, hhead⟩ := front hF hfront hnil
          have hname : stem.flatten ++ '.' :: ext.flatten ≠ [] := by simp
          have hsize : utf8Count (stem.flatten ++ '.' :: ext.flatten) ≤ maxLength := by
            rw [utf8Count_append, utf8Count_dot]
            omega
          have hfirst := head?_of_isPrefix (List.prefix_append stem.flatten ('.' :: ext.flatten))
            hnonempty
          rw [hpart hcap hname (hfirst.symm.trans hhead), and_iff_right hsize]
          exact (and_iff_right hnil).symm
      · next hfull =>
        rw [if_neg hfull]
        have hnil : (F.characters text).take maxLength ≠ [] := by
          intro hnil
          have hempty : F.characters text = [] := by
            rcases List.take_eq_nil_iff.mp hnil with h | h
            · cases h
            · exact h
          have hflat := hF.flatten_characters text
          rw [hempty] at hflat
          exact hne hflat.symm
        obtain ⟨hnonempty, hhead⟩ := front hF (List.take_prefix _ _) hnil
        exact hpart hcap hnonempty hhead

/-- A name is sanitized for good exactly when the cleaned name stays clean. -/
theorem sanitized_iff (raw : String) : Sanitized F raw ↔ StaysClean F raw := by
  have hsanitize : sanitize F raw = if cleaned F raw = [] then fallbackName
      else if cleaned F raw = ['.'] ∨ cleaned F raw = ['.', '.'] then fallbackName
      else String.ofList (capLength (F.characters (cleaned F raw))) := rfl
  have hfallback : sanitize F raw = fallbackName → Sanitized F raw := by
    intro h
    have hname : (sanitize F raw).toList = "untitled".toList := by rw [h, fallbackName]
    rw [sanitized_iff_settled hF hname (by decide) (by decide) (by decide)]
    refine ⟨by decide, by decide, .inl ?_⟩
    have hcomposed : F.precomposed "untitled".toList = "untitled".toList :=
      hF.ascii (List.all_iff_forall_prop.mp (by decide))
    rw [hF.flatten_characters, hcomposed]
    decide
  rw [StaysClean]
  by_cases hnil : cleaned F raw = []
  · rw [if_pos hnil] at hsanitize
    exact iff_of_true (hfallback hsanitize) (.inl hnil)
  by_cases hdots : cleaned F raw = ['.'] ∨ cleaned F raw = ['.', '.']
  · rw [if_neg hnil, if_pos hdots] at hsanitize
    exact iff_of_true (hfallback hsanitize) (.inr (or_assoc.mp (.inl hdots)))
  rw [if_neg hnil, if_neg hdots] at hsanitize
  have hcap : (sanitize F raw).toList = capLength (F.characters (cleaned F raw)) := by
    rw [hsanitize, String.toList_ofList]
  have hblank : (cleaned F raw).head?.any isWhitespace = false := head?_trimming _ _
  rw [or_iff_right hnil, ← or_assoc, or_iff_right hdots]
  by_cases hdot : (cleaned F raw).head? = some '.'
  · refine iff_of_false (fun h => ?_) fun h => h.1 hdot
    rcases capLength_dot hF hdot with hempty | hhead
    · exact h.1.ne_nil (hcap.trans hempty)
    · exact h.1.no_dot (by rw [hcap, hhead])
  · rw [sanitized_iff_survivesCap hF hcap hnil hdot hblank]
    exact (and_iff_right hdot).symm

omit hF

theorem canonical_asciiTables : Canonical asciiTables where
  flatten_characters := List.flatMap_singleton'
  nil_notMem_characters := by
    intro text hmem
    obtain ⟨c, -, hc⟩ := List.mem_map.mp hmem
    cases hc
  composed := fun _ => rfl
  ascii := fun _ => rfl
  substring := fun _ _ => rfl
  join := fun _ _ => rfl
  keeps := id
  head_dot := fun _ => Iff.rfl
  head_blank := fun _ => rfl
  last_blank := fun _ => rfl
  eq_nil := id

theorem sanitized_report_pdf_iff :
    Sanitized asciiTables "report.pdf" ↔ StaysClean asciiTables "report.pdf" :=
  sanitized_iff canonical_asciiTables "report.pdf"

/-- The trim uncovers a dot behind a blank. -/
theorem sanitize_uncovers_dot :
    sanitize asciiTables " .bashrc" = ".bashrc" ∧ sanitize asciiTables ".bashrc" = "bashrc" ∧
      ¬ Sanitized asciiTables " .bashrc" := by
  have hname : sanitize asciiTables " .bashrc" = ".bashrc" := by decide +kernel
  refine ⟨hname, by decide +kernel, fun h => h.1.no_dot ?_⟩
  rw [hname]
  decide

end FilenameSanitizer

end Pizzini.Attachments
