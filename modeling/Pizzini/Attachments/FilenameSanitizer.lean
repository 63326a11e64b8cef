import Mathlib.Algebra.Ring.Nat
import Mathlib.Data.List.Basic

/-!
# `FilenameSanitizer.swift`: names of received files

A sender chooses the name of the file the receiver writes, so both sides run
`sanitize` over it: format overrides, path separators and control codes are
dropped, then leading dots and surrounding blanks, and the rest is cut to 255
bytes with its last extension kept.

A Swift `String` is read in two ways: as Unicode scalars (`List Char`), and as
`Character`s, the grapheme clusters, each a list of scalars. Which scalars form
one cluster, and the canonical composition of a text, are tables of the Unicode
standard that the platform ships; they are a parameter, `Foundation`.
-/

namespace Pizzini.Attachments

/-- What the sanitizer uses of the platform's Unicode tables. -/
structure Foundation where
  /-- `precomposedStringWithCanonicalMapping`. -/
  precomposed : List Char → List Char
  /-- The `Character`s of a text, in order. -/
  characters : List Char → List (List Char)

/-- The platform's tables on ASCII texts: nothing composes, and every scalar is
a character. -/
def asciiTables : Foundation := ⟨id, List.map fun c => [c]⟩

namespace FilenameSanitizer

/-- `maxLength`. -/
def maxLength : Nat := 255

/-- `fallbackName`. -/
def fallbackName : String := "untitled"

/-- The scalars that the scrubbing loop keeps (FilenameSanitizer.swift:27–59). -/
def keeps (scalar : Char) : Bool :=
  let v := scalar.toNat
  -- bidi overrides and isolates
  !((0x202A ≤ v && v ≤ 0x202E) || (0x2066 ≤ v && v ≤ 0x2069))
  -- path separators and NUL
    && !(scalar == '/' || scalar == '\\' || v == 0)
  -- the other control codes
    && !(v < 0x20 || v == 0x7F)

/-- `CharacterSet.whitespaces`: the category Zs, and the tabulator. -/
def isWhitespace (scalar : Char) : Bool :=
  let v := scalar.toNat
  v == 0x09 || v == 0x20 || v == 0xA0 || v == 0x1680 || (0x2000 ≤ v && v ≤ 0x200A)
    || v == 0x202F || v == 0x205F || v == 0x3000

/-- `trimmingCharacters(in: .whitespaces)`. -/
def trim (text : List Char) : List Char :=
  ((text.dropWhile isWhitespace).reverse.dropWhile isWhitespace).reverse

/-- `utf8.count`. -/
def utf8Count (text : List Char) : Nat := (text.map Char.utf8Size).sum

/-- `trailingExtension(of:)` (FilenameSanitizer.swift:111–117), on characters:
what follows the last dot, if anything does. -/
def trailingExtension (name : List (List Char)) : Option (List (List Char)) :=
  let afterDot := (name.reverse.takeWhile (· ≠ ['.'])).reverse
  if afterDot.length = name.length then none
  else if afterDot = [] then none
  else some afterDot

/-- The loop at FilenameSanitizer.swift:101–104, on the stem's characters from
the last one on: drop characters until the rest fits the budget. -/
def truncateStem (stemBudget : Nat) : List (List Char) → List (List Char)
  | [] => []
  | last :: rest =>
    if stemBudget < utf8Count (last :: rest).flatten then truncateStem stemBudget rest
    else last :: rest

/-- The length cap (FilenameSanitizer.swift:78–105), on characters. -/
def capLength (name : List (List Char)) : List Char :=
  if utf8Count name.flatten ≤ maxLength then name.flatten
  else
    let extPart := trailingExtension name
    let extWithDot := (extPart.map fun ext => '.' :: ext.flatten).getD []
    if utf8Count extWithDot < maxLength then
      let stem := (extPart.map fun ext => name.take (name.length - (ext.length + 1))).getD name
      (truncateStem (maxLength - utf8Count extWithDot) stem.reverse).reverse.flatten
        ++ extWithDot
    else
      -- the extension alone fills the name: the first 255 characters
      (name.take maxLength).flatten

/-- `sanitize` (FilenameSanitizer.swift:23–106). Removing a whole character
leaves the boundaries of the others alone, so the loop over leading dots is a
`dropWhile` on characters. -/
def sanitize (F : Foundation) (raw : String) : String :=
  let scrubbed := (F.precomposed raw.toList).filter keeps
  let scrubbed := ((F.characters scrubbed).dropWhile (· = ['.'])).flatten
  let scrubbed := trim scrubbed
  if scrubbed = [] then fallbackName
  else if scrubbed = ['.'] ∨ scrubbed = ['.', '.'] then fallbackName
  else String.ofList (capLength (F.characters scrubbed))

/-! ## A sanitized name stays in its directory -/

theorem mem_of_mem_trim {text : List Char} {scalar : Char} (h : scalar ∈ trim text) :
    scalar ∈ text := by
  have h : scalar ∈ (text.dropWhile isWhitespace).reverse :=
    (List.dropWhile_sublist _).subset (List.mem_reverse.mp h)
  exact (List.dropWhile_sublist _).subset (List.mem_reverse.mp h)

theorem mem_of_mem_truncateStem {budget : Nat} :
    ∀ {stem : List (List Char)} {c : List Char}, c ∈ truncateStem budget stem → c ∈ stem
  | [], _, h => h
  | last :: rest, c, h => by
    rw [truncateStem] at h
    split at h
    · exact List.mem_cons_of_mem _ (mem_of_mem_truncateStem h)
    · exact h

theorem mem_of_mem_trailingExtension {name ext : List (List Char)} {c : List Char}
    (hext : trailingExtension name = some ext) (hc : c ∈ ext) : c ∈ name := by
  simp only [trailingExtension] at hext
  split at hext
  · exact absurd hext (by simp)
  · split at hext
    · exact absurd hext (by simp)
    · cases hext
      have hc := List.mem_reverse.mp hc
      exact List.mem_reverse.mp ((List.takeWhile_sublist _).subset hc)

/-- Capping the length adds no scalar but the dot of an extension. -/
theorem mem_capLength {name : List (List Char)} {scalar : Char} (h : scalar ∈ capLength name) :
    scalar = '.' ∨ scalar ∈ name.flatten := by
  have hpart : ∀ {part : List (List Char)}, (∀ c ∈ part, c ∈ name) →
      scalar ∈ part.flatten → scalar ∈ name.flatten := by
    intro part hsub hmem
    obtain ⟨c, hc, hscalar⟩ := List.mem_flatten.mp hmem
    exact List.mem_flatten.mpr ⟨c, hsub c hc, hscalar⟩
  simp only [capLength] at h
  split at h
  · exact .inr h
  split at h
  · rcases List.mem_append.mp h with hstem | hext
    · refine .inr (hpart (fun c hc => ?_) hstem)
      have hc := List.mem_reverse.mp (mem_of_mem_truncateStem (List.mem_reverse.mp hc))
      cases hsome : trailingExtension name with
      | none => rwa [hsome] at hc
      | some ext =>
        rw [hsome] at hc
        exact List.mem_of_mem_take hc
    · cases hsome : trailingExtension name with
      | none =>
        rw [hsome] at hext
        exact absurd hext List.not_mem_nil
      | some ext =>
        rw [hsome] at hext
        rcases List.mem_cons.mp hext with rfl | hext
        · exact .inl rfl
        · exact .inr (hpart (fun c hc => mem_of_mem_trailingExtension hsome hc) hext)
  · exact .inr (hpart (fun c hc => List.mem_of_mem_take hc) h)

/-- Whatever name a sender claims, the file is written under one without path
separators, NUL or control codes: a plain entry of the attachment's directory. -/
theorem keeps_of_mem_sanitize {F : Foundation} (hF : ∀ text, (F.characters text).flatten = text)
    (raw : String) {scalar : Char} (h : scalar ∈ (sanitize F raw).toList) : keeps scalar := by
  have hfallback : scalar ∈ fallbackName.toList → keeps scalar := by
    intro hmem
    have hall : fallbackName.toList.all keeps := by decide
    exact List.all_eq_true.mp hall scalar hmem
  simp only [sanitize] at h
  split at h
  · exact hfallback h
  split at h
  · exact hfallback h
  · rw [String.toList_ofList] at h
    rcases mem_capLength h with rfl | h
    · decide
    · rw [hF] at h
      obtain ⟨c, hc, hscalar⟩ := List.mem_flatten.mp (mem_of_mem_trim h)
      have hchar := (List.dropWhile_sublist _).subset hc
      have hscrubbed : scalar ∈ (F.characters ((F.precomposed raw.toList).filter keeps)).flatten :=
        List.mem_flatten.mpr ⟨c, hchar, hscalar⟩
      rw [hF] at hscrubbed
      exact (List.mem_filter.mp hscrubbed).2

end FilenameSanitizer

end Pizzini.Attachments
