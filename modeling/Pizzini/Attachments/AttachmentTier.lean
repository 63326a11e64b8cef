import Mathlib.Data.Bool.AllAny
import Pizzini.Attachments.FilenameSanitizer
import Pizzini.Storage.Records

/-!
# Tiers and gates (AttachmentTier.swift)

The extension of a name decides its tier, whether the sender may send it and whether the
receiver gets a red banner. The tier takes what stands behind the last dot. The two gates
take the last component between dots that is not empty, which is another text when the name
has no dot or ends in one (`gates_agree_iff`).
-/

namespace Pizzini.Attachments

open Storage (AttachmentTier)

/-- The tables of `Foundation` and `lowercased()`. -/
structure TextTables extends Foundation where
  lowercased : List Char → List Char

/-- On ASCII texts. -/
def asciiText : TextTables := { asciiTables with lowercased := List.map Char.toLower }

namespace AttachmentTierClassifier

/-! ## Extensions (AttachmentTier.swift:76–138) -/

def desktopExecuteExtensions : List String :=
  ["exe", "dll", "bat", "cmd", "command", "applescript", "scpt", "app", "msi", "ps1", "vbs", "jar"]

def iosExecuteOnTapExtensions : List String := ["mobileconfig", "shortcut", "svg"]

def codeOnTapExtensions : List String := iosExecuteOnTapExtensions ++ desktopExecuteExtensions

def authorLeakingExtensions : List String :=
  ["pdf", "doc", "docx", "xls", "xlsx", "ppt", "pptx", "iwa", "pages", "numbers", "key", "epub"]

def mediaExtensions : List String :=
  ["jpg", "jpeg", "heic", "heif", "png", "webp", "tiff", "tif", "gif", "mp4", "mov", "m4v", "mp3",
    "m4a", "wav", "aac"]

def archiveExtensions : List String :=
  ["zip", "7z", "tar", "gz", "tgz", "bz2", "tbz2", "xz", "rar"]

variable (T : TextTables)

/-- `contains`: strings are equal when they are canonically equivalent. -/
def contains (extensions : List String) (ext : List (List Char)) : Bool :=
  extensions.any fun name => T.precomposed name.toList = T.precomposed ext.flatten

/-- The characters of `filename.lowercased()`. -/
def lower (filename : String) : List (List Char) := T.characters (T.lowercased filename.toList)

/-- What stands behind the last dot, or nothing. -/
def afterLastDot (lower : List (List Char)) : List (List Char) :=
  if ['.'] ∈ lower then (lower.reverse.takeWhile (· ≠ ['.'])).reverse else []

/-- `split(separator: ".").last`, or nothing. -/
def lastComponent (lower : List (List Char)) : List (List Char) :=
  ((lower.splitOn ['.']).filter (!·.isEmpty)).getLast?.getD []

/-! ## Classification (AttachmentTier.swift:43–74, 140–146) -/

/-- `tier(forFilename:)`. -/
def tier (filename : String) : AttachmentTier :=
  let ext := afterLastDot (lower T filename)
  if contains T codeOnTapExtensions ext then .codeOnTap
  else if contains T authorLeakingExtensions ext then .authorLeakingDoc
  else if contains T mediaExtensions ext then .mediaStripAndWarn
  else if contains T archiveExtensions ext then .archive
  else .textFamily

/-- `isBlockedAtSend(filename:)`. -/
def isBlockedAtSend (filename : String) : Bool :=
  contains T iosExecuteOnTapExtensions (lastComponent (lower T filename))

/-- `isDesktopExecutable(filename:)`. -/
def isDesktopExecutable (filename : String) : Bool :=
  contains T desktopExecuteExtensions (lastComponent (lower T filename))

/-! ## The last component -/

section Components

variable {α : Type} [BEq α] [LawfulBEq α]

/-- The non-empty pieces between separators. -/
theorem components_append_cons (d : α) (pre ext : List α) :
    ((pre ++ d :: ext).splitOn d).filter (!·.isEmpty) =
      (pre.splitOn d).filter (!·.isEmpty) ++ (ext.splitOn d).filter (!·.isEmpty) := by
  rw [List.splitOn_append_cons_self, List.filter_append]

theorem components_replicate (d : α) (n : Nat) :
    ((List.replicate n d).splitOn d).filter (!·.isEmpty) = [] := by
  induction n with
  | zero => rfl
  | succ n ih =>
    have hpiece := components_append_cons d [] (List.replicate n d)
    rw [ih, List.append_nil] at hpiece
    exact hpiece

/-- A piece with a separator in front, or nothing, and only separators behind is the last. -/
theorem components_last {d : α} {pre ext : List α} (hpre : pre = [] ∨ ∃ p, pre = p ++ [d])
    (hext : d ∉ ext) (hne : ext ≠ []) (n : Nat) :
    (((pre ++ ext ++ List.replicate n d).splitOn d).filter (!·.isEmpty)).getLast? = some ext := by
  have hone : (ext.splitOn d).filter (!·.isEmpty) = [ext] := by
    rw [List.splitOn_eq_singleton hext]
    exact List.filter_cons_of_pos (by rw [List.isEmpty_eq_false_iff.mpr hne]; rfl)
  have hbehind : ((ext ++ List.replicate n d).splitOn d).filter (!·.isEmpty) = [ext] := by
    cases n with
    | zero => rw [List.replicate_zero, List.append_nil, hone]
    | succ n =>
      rw [List.replicate_succ, components_append_cons, components_replicate, hone,
        List.append_nil]
  rcases hpre with rfl | ⟨p, rfl⟩
  · rw [List.nil_append, hbehind]
    rfl
  · rw [List.append_assoc, List.append_assoc, List.singleton_append, components_append_cons,
      hbehind]
    exact List.getLast?_concat

omit [BEq α] [LawfulBEq α] in
/-- A list is nothing but separators, or ends in a piece and separators. -/
theorem exists_last_piece (d : α) (l : List α) : (∃ n, l = List.replicate n d) ∨
    ∃ pre ext n, l = pre ++ ext ++ List.replicate n d ∧ d ∉ ext ∧ ext ≠ [] ∧
      (pre = [] ∨ ∃ p, pre = p ++ [d]) := by
  induction l with
  | nil => exact .inl ⟨0, rfl⟩
  | cons a l ih =>
    rcases ih with ⟨n, rfl⟩ | ⟨pre, ext, n, rfl, hext, hne, hpre⟩
    · by_cases ha : a = d
      · subst ha
        exact .inl ⟨n + 1, rfl⟩
      · exact .inr ⟨[], [a], n, rfl, by simpa using Ne.symm ha, by simp, .inl rfl⟩
    · rcases hpre with rfl | ⟨p, rfl⟩
      · by_cases ha : a = d
        · subst ha
          exact .inr ⟨[a], ext, n, rfl, hext, hne, .inr ⟨[], rfl⟩⟩
        · refine .inr ⟨[], a :: ext, n, rfl, ?_, by simp, .inl rfl⟩
          rw [List.mem_cons, not_or]
          exact ⟨Ne.symm ha, hext⟩
      · exact .inr ⟨a :: p ++ [d], ext, n, rfl, hext, hne, .inr ⟨a :: p, rfl⟩⟩

end Components

/-! ## When the gates agree with the tier -/

/-- The name is an executable extension and no dot stands in front of it, or dots stand
behind it. -/
def EndsBare (filename : String) : Prop :=
  ∃ pre ext n, lower T filename = pre ++ ext ++ List.replicate n ['.'] ∧ ['.'] ∉ ext ∧
    contains T codeOnTapExtensions ext ∧ (pre = [] ∨ (∃ p, pre = p ++ [['.']]) ∧ 0 < n)

/-- The gates tell the executable names of the tier, each those of its own kind. -/
def GatesAgree (filename : String) : Prop :=
  (tier T filename = .codeOnTap ↔ isBlockedAtSend T filename ∨ isDesktopExecutable T filename) ∧
    ¬ (isBlockedAtSend T filename ∧ isDesktopExecutable T filename)

variable {T}

theorem afterLastDot_append {l ext : List (List Char)} (hext : ['.'] ∉ ext) :
    afterLastDot (l ++ [['.']] ++ ext) = ext := by
  have hdot : (['.'] : List Char) ∈ l ++ [['.']] ++ ext := by simp
  have hclean : ∀ c ∈ ext.reverse, decide (c ≠ ['.']) = true := by
    intro c hc
    refine decide_eq_true ?_
    rintro rfl
    exact hext (List.mem_reverse.mp hc)
  rw [afterLastDot, if_pos hdot, List.reverse_append, List.reverse_append,
    List.takeWhile_append_of_pos hclean]
  simp

theorem tier_eq_codeOnTap_iff {filename : String} : tier T filename = .codeOnTap ↔
    contains T codeOnTapExtensions (afterLastDot (lower T filename)) := by
  rw [tier]
  split
  · next h => exact ⟨fun _ => h, fun _ => rfl⟩
  · next h =>
    refine ⟨fun htier => ?_, fun hin => absurd hin h⟩
    split at htier
    · cases htier
    · split at htier
      · cases htier
      · split at htier <;> cases htier

theorem gates_iff {filename : String} :
    isBlockedAtSend T filename ∨ isDesktopExecutable T filename ↔
      contains T codeOnTapExtensions (lastComponent (lower T filename)) := by
  rw [isBlockedAtSend, isDesktopExecutable, contains, contains, contains, codeOnTapExtensions,
    List.any_append, Bool.or_eq_true]

/-- A list of extensions is in ASCII when its letters are. -/
theorem ascii_extensions {extensions : List String}
    (h : ((extensions.flatMap String.toList).all fun c => c.toNat < 128) = true) :
    ∀ name ∈ extensions, ∀ c ∈ name.toList, c.toNat < 128 :=
  fun name hname c hc =>
    List.all_iff_forall_prop.mp h c (List.mem_flatMap.mpr ⟨name, hname, hc⟩)

section Ascii

variable (hascii : ∀ text : List Char, (∀ c ∈ text, c.toNat < 128) → T.precomposed text = text)
include hascii

/-- An extension of the lists is only equal to itself. -/
theorem contains_iff {extensions : List String}
    (hlist : ∀ name ∈ extensions, ∀ c ∈ name.toList, c.toNat < 128) {ext : List (List Char)} :
    contains T extensions ext ↔ ∃ name ∈ extensions, T.precomposed ext.flatten = name.toList := by
  simp only [contains, List.any_eq_true, decide_eq_true_eq]
  constructor
  · rintro ⟨name, hname, heq⟩
    exact ⟨name, hname, by rw [← heq, hascii _ (hlist name hname)]⟩
  · rintro ⟨name, hname, heq⟩
    exact ⟨name, hname, by rw [heq, hascii _ (hlist name hname)]⟩

theorem not_contains_nil : contains T codeOnTapExtensions [] = false := by
  rw [Bool.eq_false_iff, Ne, contains_iff hascii (ascii_extensions (by decide))]
  rintro ⟨name, hname, heq⟩
  rw [List.flatten_nil, hascii [] (fun c hc => absurd hc List.not_mem_nil)] at heq
  exact (by decide : ∀ name ∈ codeOnTapExtensions, [] ≠ name.toList) name hname heq

/-- No name is of both kinds. -/
theorem not_blocked_and_desktop (filename : String) :
    ¬ (isBlockedAtSend T filename ∧ isDesktopExecutable T filename) := by
  rw [isBlockedAtSend, isDesktopExecutable, contains_iff hascii (ascii_extensions (by decide)),
    contains_iff hascii (ascii_extensions (by decide))]
  rintro ⟨⟨name, hname, heq⟩, name', hname', heq'⟩
  have hdisjoint : ∀ name ∈ iosExecuteOnTapExtensions, ∀ name' ∈ desktopExecuteExtensions,
      name.toList ≠ name'.toList := by decide
  exact hdisjoint name hname name' hname' (heq.symm.trans heq')

/-- The gates agree with the tier exactly on the names that do not end in a bare executable
extension. -/
theorem gates_agree_iff (filename : String) :
    GatesAgree T filename ↔ ¬ EndsBare T filename := by
  have hnil := not_contains_nil hascii
  have hagree : GatesAgree T filename ↔
      (contains T codeOnTapExtensions (afterLastDot (lower T filename)) ↔
        contains T codeOnTapExtensions (lastComponent (lower T filename))) := by
    rw [GatesAgree, tier_eq_codeOnTap_iff, gates_iff]
    exact and_iff_left (not_blocked_and_desktop hascii filename)
  have hdotted : ∀ (l : List (List Char)) (n : Nat), 0 < n →
      afterLastDot (l ++ List.replicate n ['.']) = [] := by
    intro l n hn
    obtain ⟨m, rfl⟩ : ∃ m, n = m + 1 := ⟨n - 1, by omega⟩
    have hlast := afterLastDot_append (l := l ++ List.replicate m ['.']) List.not_mem_nil
    rwa [List.append_nil, List.append_assoc, ← List.replicate_succ'] at hlast
  have hbare : ∀ {ext : List (List Char)}, ['.'] ∉ ext → afterLastDot ext = [] :=
    fun hext => if_neg hext
  rw [hagree]
  constructor
  · rintro h ⟨pre, ext, n, hlower, hext, hexec, hpre⟩
    have hne : ext ≠ [] := by
      rintro rfl
      rw [hnil] at hexec
      cases hexec
    have hcomponent : lastComponent (lower T filename) = ext := by
      rw [lastComponent, hlower,
        components_last (hpre.imp_right And.left) hext hne n, Option.getD_some]
    have hafter : afterLastDot (lower T filename) = [] := by
      rcases hpre with rfl | ⟨-, hn⟩
      · cases n with
        | zero =>
          rw [hlower, List.nil_append, List.replicate_zero, List.append_nil]
          exact hbare hext
        | succ n => rw [hlower, hdotted _ _ (Nat.succ_pos n)]
      · rw [hlower, hdotted _ _ hn]
    rw [hafter, hcomponent, hexec, hnil] at h
    exact absurd (h.mpr rfl) Bool.false_ne_true
  · intro h
    rcases exists_last_piece (['.'] : List Char) (lower T filename) with ⟨n, hlower⟩ |
      ⟨pre, ext, n, hlower, hext, hne, hpre⟩
    · have hcomponent : lastComponent (lower T filename) = [] := by
        rw [lastComponent, hlower, components_replicate]
        rfl
      have hafter : afterLastDot (lower T filename) = [] := by
        rw [hlower]
        cases n with
        | zero => rfl
        | succ n => exact hdotted [] (n + 1) (Nat.succ_pos n)
      rw [hafter, hcomponent]
    · have hcomponent : lastComponent (lower T filename) = ext := by
        rw [lastComponent, hlower, components_last hpre hext hne n, Option.getD_some]
      rw [hcomponent]
      by_cases hn : n = 0
      · subst hn
        rw [List.replicate_zero, List.append_nil] at hlower
        rcases hpre with rfl | ⟨p, rfl⟩
        · -- no dot at all: the name is not an executable extension
          have hclean : contains T codeOnTapExtensions ext = false := by
            rw [Bool.eq_false_iff]
            exact fun hexec => h ⟨[], ext, 0, by rw [hlower]; simp, hext, hexec, .inl rfl⟩
          rw [hlower, List.nil_append, hbare hext, hnil, hclean]
        · rw [hlower, afterLastDot_append hext]
      · have hafter : afterLastDot (lower T filename) = [] := by
          rw [hlower, hdotted _ _ (Nat.pos_of_ne_zero hn)]
        have hclean : contains T codeOnTapExtensions ext = false := by
          rw [Bool.eq_false_iff]
          exact fun hexec => h ⟨pre, ext, n, hlower, hext, hexec,
            hpre.imp_right fun hp => ⟨hp, Nat.pos_of_ne_zero hn⟩⟩
        rw [hafter, hnil, hclean]

end Ascii

/-- A name with its extension behind a dot. -/
theorem gates_agree_on_setup_exe : GatesAgree asciiText "setup.exe" ↔ ¬ EndsBare asciiText "setup.exe" :=
  gates_agree_iff (fun _ _ => rfl) "setup.exe"

/-- Names that the sanitizer leaves as they are: `svg` is blocked at send and text for the
receiver, `evil.exe.` gets the red banner and is stored as text. -/
theorem gates_disagree :
    (FilenameSanitizer.sanitize asciiTables "svg" = "svg" ∧ isBlockedAtSend asciiText "svg" ∧
        tier asciiText "svg" = .textFamily) ∧
      FilenameSanitizer.sanitize asciiTables "evil.exe." = "evil.exe." ∧
        isDesktopExecutable asciiText "evil.exe." ∧ tier asciiText "evil.exe." = .textFamily := by
  decide +kernel

end AttachmentTierClassifier

end Pizzini.Attachments
