import Mathlib.Data.List.TakeWhile

/-!
# Texts in the database (`PizziniDB/Statement.swift`)

`String.bind` hands a text to `sqlite3_bind_text` as a C string, with length -1. What follows
its first NUL is not stored, and a relaunch reads the text without it. Every text column of the
app goes through this: contents of messages, display names, file names, settings.
-/

namespace Pizzini.Storage

/-- What a C string keeps of a `String`. -/
def cString (s : String) : String := String.ofList (s.toList.takeWhile fun c => c ≠ '\x00')

theorem nul_notMem_cString (s : String) : '\x00' ∉ (cString s).toList := by
  rw [cString, String.toList_ofList]
  intro hmem
  simpa using List.mem_takeWhile_imp hmem

/-- A C string keeps everything of a text without NUL, and of no other. -/
theorem cString_eq_self_iff {s : String} : cString s = s ↔ '\x00' ∉ s.toList := by
  rw [cString, ← String.toList_inj, String.toList_ofList, List.takeWhile_eq_self_iff]
  refine ⟨fun h hmem => by simpa using h _ hmem, fun h c hc => decide_eq_true ?_⟩
  rintro rfl
  exact h hc

/-- What was read is stored whole. -/
@[simp] theorem cString_cString (s : String) : cString (cString s) = cString s :=
  cString_eq_self_iff.mpr (nul_notMem_cString s)

end Pizzini.Storage
