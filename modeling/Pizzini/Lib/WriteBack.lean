import Pizzini.Lib.Dict
import Pizzini.Lib.Runs

/-!
# Stores that are written back later

A store keeps its contents in memory, marks itself dirty when they change, and
writes a file when it is flushed. `Stands file mem` says what the owner of the
store expects of the file: it stands for the contents. A store is `Synced` if
its file does so whenever the store is clean.

Operations keep this if they are `Lawful`: they change nothing that the file
does not also stand for, or leave the store dirty, or leave a file that stands
for the contents. `synced_of_reach` carries it over runs.
-/

namespace WriteBack

open Runs

variable {M F : Type}

/-- What is in memory, whether it has changed since it was written, and the file. -/
structure Cached (M F : Type) where
  mem : M
  dirty : Bool
  file : F

/-- The file of a clean store stands for its contents. -/
def Synced (Stands : F → M → Prop) (c : Cached M F) : Prop :=
  c.dirty = false → Stands c.file c.mem

/-- What an operation may do. -/
inductive Lawful (Stands : F → M → Prop) (c : Cached M F) : Cached M F → Prop where
  /-- the contents have not changed, as far as files can tell -/
  | same {mem : M} (h : ∀ file, Stands file c.mem → Stands file mem) :
      Lawful Stands c ⟨mem, c.dirty, c.file⟩
  /-- the store is dirty afterwards -/
  | marked {mem : M} {file : F} : Lawful Stands c ⟨mem, true, file⟩
  /-- the contents have been written -/
  | written {mem : M} {dirty : Bool} {file : F} (h : Stands file mem) :
      Lawful Stands c ⟨mem, dirty, file⟩

theorem Lawful.refl (Stands : F → M → Prop) (c : Cached M F) : Lawful Stands c c :=
  .same fun _ h => h

theorem Synced.step {Stands : F → M → Prop} {c c' : Cached M F} (h : Synced Stands c)
    (hstep : Lawful Stands c c') : Synced Stands c' := by
  cases hstep with
  | same hmem => exact fun hclean => hmem _ (h hclean)
  | marked => exact nofun
  | written hstands => exact fun _ => hstands

/-- A store whose operations are lawful stays synced. -/
theorem synced_of_reach {S E : Type} {step : S → E → S → Prop} {ok : S → E → Prop}
    {Stands : F → M → Prop} (view : S → Cached M F)
    (hlawful : ∀ {s e s'}, step s e s' → Lawful Stands (view s) (view s')) {s s' : S}
    (hrun : Reach step ok s s') (h₀ : Synced Stands (view s)) : Synced Stands (view s') :=
  hrun.invariant (fun s => Synced Stands (view s)) (fun h _ hstep => h.step (hlawful hstep)) h₀

/-! ## Files of entries that expire

The contents are a dictionary. A file is read at a time, and `live now k v` is
what is left of the value `v` at that time.
-/

section Expiring

variable {T D E K V : Type} [LE T] [DecidableEq K]

/-- Read at `start` or later, the file gives the contents less what has expired. -/
def StandsFor (read : T → D → Except E (Dict K V)) (live : T → K → V → Option V) (start : T)
    (data : D) (map : Dict K V) : Prop :=
  ∀ now, start ≤ now → ∃ loaded, read now data = .ok loaded ∧
    ∀ k, loaded.lookup k = (map.lookup k).bind (live now k)

namespace StandsFor

variable {read : T → D → Except E (Dict K V)} {live : T → K → V → Option V} {first start : T}
  {data : D} {map map' : Dict K V}

/-- Contents that differ in nothing that is live. -/
theorem congr (h : StandsFor read live start data map)
    (hlive : ∀ k now, start ≤ now → (map'.lookup k).bind (live now k) =
      (map.lookup k).bind (live now k)) : StandsFor read live start data map' := by
  intro now hnow
  obtain ⟨loaded, hread, hlook⟩ := h now hnow
  exact ⟨loaded, hread, fun k => (hlook k).trans (hlive k now hnow).symm⟩

/-- What is read at `start` from a file that stands for `map` is what the file
stands for from then on, if what has expired stays expired. -/
theorem of_read
    (hexpire : ∀ earlier later k v, earlier ≤ later →
      (live earlier k v).bind (live later k) = live later k v)
    (h : StandsFor read live first data map) (hstart : ∀ now, start ≤ now → first ≤ now)
    (hfirst : first ≤ start) (hread : read start data = .ok map') :
    StandsFor read live start data map' := by
  intro now hnow
  obtain ⟨loaded, hloaded, hlook⟩ := h now (hstart now hnow)
  obtain ⟨atStart, hatStart, hlook'⟩ := h start hfirst
  cases hread.symm.trans hatStart
  refine ⟨loaded, hloaded, fun k => ?_⟩
  rw [hlook, hlook']
  cases map.lookup k with
  | none => rfl
  | some v => exact (hexpire start now k v hnow).symm

/-- What stands from some time on stands from a later time on. -/
theorem later (h : StandsFor read live first data map) (hstart : ∀ now, start ≤ now → first ≤ now) :
    StandsFor read live start data map := fun now hnow => h now (hstart now hnow)

end StandsFor

end Expiring

end WriteBack
