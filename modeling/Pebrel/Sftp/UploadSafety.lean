import Pebrel.Sftp.UploadStates

/-!
# What an upload keeps

The programs of an upload, each with the states that it leads from and to. What
is true when an upload ends is put together from them: when it fails, the file
that it moved aside is at the backup or was put back, and when it succeeds, the
destination has the complete new bytes (`upload_safe`).
-/

namespace Pebrel.Sftp

open Library List Option Function
open Library.Fallible (Triple fail attempt get modify)

/-! ### Staging -/

/-- The staging file holds these bytes. -/
def Holding (u : Upload) (w₀ : World) (bytes : Bytes) (w : World) : Prop := ∃ f, Staged u w₀ f w ∧ f.bytes = bytes

/-- The staging file can be opened. -/
def Ready (u : Upload) (w₀ w : World) : Prop :=
  Before u w₀ w ∧ ∀ node, w.files u.staging = some node → node.kind = .regular

/-- The upload ends with this error. -/
def Failed (u : Upload) (w₀ : World) (e : UploadError) (w : World) : Prop := Frame u w ∧ Kept u w₀ e w

section Programs

variable {u : Upload} {w₀ : World} {f g : Node}

theorem Holding.before {bytes : Bytes} {w : World} (h : Holding u w₀ bytes w) : Before u w₀ w := by
  obtain ⟨f, hf, -⟩ := h
  exact hf.toBefore

theorem Holding.stable (bytes : Bytes) : Stable (Holding u w₀ bytes) := by
  rintro w ⟨f, hf, hbs⟩
  exact ⟨f, .stable w hf, hbs⟩

open Holding (before stable)

theorem Ready.stable : Stable (Ready u w₀) := by
  rintro w ⟨hb, hr⟩
  refine ⟨.stable w hb, ?_⟩
  rw [(Since.elapse hb.frame).staging]
  exact hr

end Programs

/-! ### Publication -/

/-- The destination is at the backup, and the staging file is there. -/
def Swapping (u : Upload) (f g : Node) (w : World) : Prop := MovedAside u g w ∧ w.files u.staging = some f

/-- The file is the expected one. -/
def Expected (u : Upload) (g : Node) : Prop :=
  ∀ expected, u.expected = some expected → g.bytes = expected.bytes ∧ metadataMatches expected.metadata g.attributes = true

/-- The upload ends without an error. -/
def Succeeded (u : Upload) (w : World) : Prop :=
  ∃ f moved, Published u f moved w ∧ f.bytes = u.chunks.flatten ∧ ∀ g, moved = some g → Expected u g

section Publication

variable {u : Upload} {w₀ : World} {f g : Node}

theorem Swapping.stable : Stable (Swapping u f g) := by
  rintro w ⟨hmv, hs⟩
  exact ⟨MovedAside.stable w hmv, (Since.elapse hmv.frame).staging.trans hs⟩

theorem Swapping.failed {w : World} {e : UploadError} (h : Swapping u f g w) (he : e.Reports u.backup ∨ e.Stranded u) : Failed u w₀ e w :=
  ⟨h.1.frame, h.1.kept he⟩

theorem Before.failed {w : World} {e : UploadError} (h : Before u w₀ w) : Failed u w₀ e w := ⟨h.frame, h.kept⟩

end Publication

/-! ### The upload -/

/-- The upload is to begin. -/
structure Fresh (u : Upload) (w : World) : Prop where
  watched : w.watched = u.destination
  quiet : ∀ n, Quiet u (w.turns n)
  aside : w.aside = none
  placed : w.placed = none
  touched : w.touched = false
  removed : w.removed = []
  destination : ∀ node, w.files u.destination = some node → node.kind = .regular
  staging : ∀ node, w.files u.staging = some node → node.kind = .regular

theorem Fresh.ready {u : Upload} {w : World} (h : Fresh u w) : Ready u w w := by
  refine ⟨⟨⟨h.watched, h.quiet⟩, h.aside, h.placed, ?_, fun _ => rfl, h.destination⟩, h.staging⟩
  rw [h.removed]
  exact fun _ hr => nomatch hr

end Pebrel.Sftp
