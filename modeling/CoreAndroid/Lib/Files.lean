import Mathlib.Data.List.Lemmas
import Mathlib.Logic.Function.Basic

/-! Files and the descriptors that write to them, each at an offset of its own. -/

structure Files (φ β : Type) where
  text : φ → List β
  fds : Int → Option (φ × Nat) -- the file a descriptor writes to, and the offset of the next write

namespace Files
variable {φ β : Type} [DecidableEq φ]

/-- `open` with truncation, where a negative descriptor says that it failed -/
def openTrunc (files : Files φ β) (fd : Int) (file : φ) : Files φ β :=
  if fd < 0 then files
  else
    { text := Function.update files.text file []
      fds := Function.update files.fds fd (some (file, 0)) }

def close (files : Files φ β) (fd : Int) : Files φ β :=
  { files with fds := Function.update files.fds fd none }

def put (blank : β) (text : List β) (offset : Nat) (bytes : List β) : List β :=
  (text.take offset).rightpad offset blank ++ bytes ++ text.drop (offset + bytes.length)

/-- A write of no bytes has no effect, and neither has one to a descriptor that is not open. -/
def write (blank : β) (files : Files φ β) (fd : Int) (bytes : List β) : Files φ β :=
  match files.fds fd with
  | none => files
  | some (file, offset) =>
      if bytes.isEmpty then files
      else
        { text := Function.update files.text file (put blank (files.text file) offset bytes)
          fds := Function.update files.fds fd (some (file, offset + bytes.length)) }

theorem put_length (blank : β) (text : List β) (offset : Nat) (bytes : List β) :
    (put blank text offset bytes).length = max text.length (offset + bytes.length) := by
  simp only [put, List.length_append, List.length_rightpad, List.length_take, List.length_drop]
  omega

theorem put_end (blank : β) (text bytes : List β) :
    put blank text text.length bytes = text ++ bytes := by
  simp [put, List.rightpad]

section Single
variable {files : Files φ β} {fd : Int} {file : φ} {written : List β}

def Shut (files : Files φ β) : Prop := ∀ fd, files.fds fd = none

/-- One descriptor is open, and it has written all of its file. -/
structure Single (files : Files φ β) (fd : Int) (file : φ) (written : List β) : Prop where
  text : files.text file = written
  fds : files.fds fd = some (file, written.length)
  others : ∀ other, other ≠ fd → files.fds other = none

theorem Shut.openTrunc (h : files.Shut) (hfd : 0 ≤ fd) :
    (files.openTrunc fd file).Single fd file [] := by
  rw [Files.openTrunc, if_neg (not_lt.mpr hfd)]
  refine ⟨Function.update_self .., Function.update_self .., ?_⟩
  intro other hother
  exact (Function.update_of_ne hother ..).trans (h other)

theorem Single.write (h : files.Single fd file written) (blank : β) (bytes : List β) :
    (files.write blank fd bytes).Single fd file (written ++ bytes) := by
  unfold Files.write
  simp only [h.fds]
  by_cases hempty : bytes.isEmpty = true
  · rw [if_pos hempty, List.isEmpty_iff.mp hempty, List.append_nil]
    exact h
  · rw [if_neg hempty]
    refine ⟨?_, ?_, ?_⟩
    · dsimp only
      rw [Function.update_self, h.text, put_end]
    · dsimp only
      rw [Function.update_self, List.length_append]
    · intro other hother
      exact (Function.update_of_ne hother ..).trans (h.others other hother)

theorem write_unopened (h : files.fds fd = none) (blank : β) (bytes : List β) :
    files.write blank fd bytes = files := by
  simp only [write, h]

end Single

end Files
