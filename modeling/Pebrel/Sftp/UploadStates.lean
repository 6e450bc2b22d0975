import Pebrel.Sftp.Upload

/-!
# The states of an upload

Before the destination is moved aside, the upload has only written its staging
file (`Before`, `Staged`). Then the file that was moved aside is at the backup
(`MovedAside`), until the staging file takes its place (`Published`) or it is put
back (`Kept`). Each of these holds on while another client changes the
destination, and each request leads from one of them to another.
-/

namespace Pebrel.Sftp

open Library List Option Function
open Library.Fallible (Triple fail attempt get modify)

/-! ### The paths of an upload -/

theorem remoteSiblingPath_ne (destination : Path) (marker : Text) (nonce : ℕ) :
    remoteSiblingPath destination marker nonce ≠ destination := by
  intro h
  have hl := congrArg (fun p : Path => (p.getLast?.getD []).length) h
  simp only [remoteSiblingPath, getLast?_concat, getD_some, length_append] at hl
  simp at hl
  omega

theorem staging_ne_backup (u : Upload) : u.staging ≠ u.backup := by
  intro h
  have hl := congrArg getLast? h
  simp only [Upload.staging, Upload.backup, remoteSiblingPath, getLast?_concat, some.injEq] at hl
  simp only [append_assoc, append_cancel_left_eq] at hl
  have hf := congrArg (fun t : Text => t[7]?) hl
  simp at hf

theorem staging_ne_destination (u : Upload) : u.staging ≠ u.destination := remoteSiblingPath_ne _ _ _

theorem backup_ne_destination (u : Upload) : u.backup ≠ u.destination := remoteSiblingPath_ne _ _ _

/-! ### What another client does -/

/-- Another client does not use the names of the staging file and of the backup, and puts regular files
only at the destination. -/
def Quiet (u : Upload) (turn : Turn) : Prop :=
  ∀ e ∈ turn.edits, e.1 ≠ u.staging ∧ e.1 ≠ u.backup ∧ (e.1 = u.destination → ∀ node, e.2 = some node → node.kind = .regular)

/-- What does not change during the upload. -/
structure Frame (u : Upload) (w : World) : Prop where
  watched : w.watched = u.destination
  quiet : ∀ n, Quiet u (w.turns n)

/-- Nothing but the destination has changed since, by another client. -/
structure Since (u : Upload) (w w' : World) : Prop where
  turns : w'.turns = w.turns
  watched : w'.watched = w.watched
  aside : w'.aside = w.aside
  placed : w'.placed = w.placed
  removed : w'.removed = w.removed
  staging : w'.files u.staging = w.files u.staging
  backup : w'.files u.backup = w.files u.backup
  destination : w'.touched = false → w.touched = false ∧ w'.files u.destination = w.files u.destination
  regular : (∀ node, w.files u.destination = some node → node.kind = .regular) →
    ∀ node, w'.files u.destination = some node → node.kind = .regular

namespace Since

variable {u : Upload} {w w' w'' : World}

theorem refl (u : Upload) (w : World) : Since u w w := ⟨rfl, rfl, rfl, rfl, rfl, rfl, rfl, fun h => ⟨h, rfl⟩, id⟩

theorem trans (h : Since u w w') (h' : Since u w' w'') : Since u w w'' where
  turns := h'.turns.trans h.turns
  watched := h'.watched.trans h.watched
  aside := h'.aside.trans h.aside
  placed := h'.placed.trans h.placed
  removed := h'.removed.trans h.removed
  staging := h'.staging.trans h.staging
  backup := h'.backup.trans h.backup
  destination ht := by
    obtain ⟨ht', hd'⟩ := h'.destination ht
    obtain ⟨ht, hd⟩ := h.destination ht'
    exact ⟨ht, hd'.trans hd⟩
  regular hr := h'.regular (h.regular hr)

theorem edit (hw : w.watched = u.destination) {e : Path × Option Node} (hs : e.1 ≠ u.staging) (hb : e.1 ≠ u.backup)
    (hd : e.1 = u.destination → ∀ node, e.2 = some node → node.kind = .regular) : Since u w (w.edit e) where
  turns := rfl
  watched := rfl
  aside := rfl
  placed := rfl
  removed := rfl
  staging := update_of_ne hs.symm _ _
  backup := update_of_ne hb.symm _ _
  destination ht := by
    simp only [World.edit, Bool.or_eq_false_iff, decide_eq_false_iff_not, hw] at ht
    exact ⟨ht.1, update_of_ne (.symm ht.2) _ _⟩
  regular hr node hn := by
    by_cases he : e.1 = u.destination
    · refine hd he node ?_
      rw [← hn, ← he]
      exact (update_self e.1 e.2 w.files).symm
    · refine hr node ?_
      rw [← hn]
      exact (update_of_ne (.symm he) _ _).symm

theorem edits (hw : w.watched = u.destination) (edits : List (Path × Option Node)) (hq : ∀ e ∈ edits, e.1 ≠ u.staging ∧ e.1 ≠ u.backup ∧
    (e.1 = u.destination → ∀ node, e.2 = some node → node.kind = .regular)) : Since u w (edits.foldl .edit w) := by
  induction edits generalizing w with
  | nil => exact refl u w
  | cons e edits ih =>
    obtain ⟨hs, hb, hd⟩ := hq e mem_cons_self
    have h := edit hw hs hb hd
    exact h.trans (ih (h.watched.trans hw) fun e he => hq e (mem_cons_of_mem _ he))

theorem elapse (h : Frame u w) : Since u w w.elapse := by
  have hs := edits h.watched (w.turns w.now).edits (h.quiet w.now)
  exact ⟨hs.turns, hs.watched, hs.aside, hs.placed, hs.removed, hs.staging, hs.backup, hs.destination, hs.regular⟩

theorem frame (h : Since u w w') (hw : Frame u w) : Frame u w' := ⟨h.watched.trans hw.watched, fun n => by rw [h.turns]; exact hw.quiet n⟩

end Since

/-! ### The requests -/

/-- The property holds on while another client acts. -/
def Stable (P : World → Prop) : Prop := ∀ w, P w → P w.elapse

section Requests

variable {P : World → Prop} (hP : Stable P)

include hP

end Requests

/-! ### The states of an upload -/

/-- Nothing but the staging file has changed. -/
structure Before (u : Upload) (w₀ w : World) : Prop where
  frame : Frame u w
  aside : w.aside = none
  placed : w.placed = none
  removed : ∀ r ∈ w.removed, r.1 = u.staging
  destination : w.touched = false → w.files u.destination = w₀.files u.destination
  regular : ∀ node, w.files u.destination = some node → node.kind = .regular

/-- The staging file is this one. -/
structure Staged (u : Upload) (w₀ : World) (f : Node) (w : World) : Prop extends Before u w₀ w where
  staging : w.files u.staging = some f

/-- The destination was moved aside. -/
structure MovedAside (u : Upload) (g : Node) (w : World) : Prop where
  frame : Frame u w
  aside : w.aside = some g
  removed : ∀ r ∈ w.removed, r.1 = u.staging
  backup : w.files u.backup = some g

/-- The upload put the file at the destination. -/
structure Published (u : Upload) (f : Node) (moved : Option Node) (w : World) : Prop where
  frame : Frame u w
  aside : w.aside = moved
  placed : w.placed = some f
  removed : ∀ r ∈ w.removed, r.1 = u.staging ∨ r.1 = u.backup ∧ moved = some r.2
  backup : ∀ g, moved = some g → ∀ node, w.files u.backup = some node → node = g
  destination : w.touched = false → w.files u.destination = some f

/-- The error says that the previous file is at this path. -/
def UploadError.Reports (backup : Path) : UploadError → Prop
  | .newFile _ path => path = backup
  | .draftRemains _ restoreError _ => restoreError.Reports backup
  | .notReplaced _ _ path _ => path = backup
  | _ => False

/-- The file that was moved aside is not the expected one, and a request to move it back has failed. -/
def UploadError.Stranded (u : Upload) (e : UploadError) : Prop :=
  u.expected.isSome = true ∧ ∃ error, e = .draftRemains error .session u.staging

/-- What an upload that fails with this error keeps: it removed nothing but its own staging file; what it moved
aside is at the backup, which the error reports unless the file is stranded there, or the upload put it back. -/
structure Kept (u : Upload) (w₀ : World) (e : UploadError) (w : World) : Prop where
  removed : ∀ r ∈ w.removed, r.1 = u.staging
  unmoved : w.aside = none → w.placed = none ∧ (w.touched = false → w.files u.destination = w₀.files u.destination)
  moved : ∀ g, w.aside = some g → w.files u.backup = some g ∧ (e.Reports u.backup ∨ e.Stranded u) ∨
    w.placed = some g ∧ (w.touched = false → w.files u.destination = some g)

/-- What an upload that succeeds has done: it put the complete new bytes at the destination, and what it
moved aside was what the precondition expects. It removed nothing else. -/
structure Done (u : Upload) (w : World) : Prop where
  placed : ∃ f, w.placed = some f ∧ f.bytes = u.chunks.flatten ∧ (w.touched = false → w.files u.destination = some f)
  expected : ∀ g expected, w.aside = some g → u.expected = some expected →
    g.bytes = expected.bytes ∧ metadataMatches expected.metadata g.attributes = true
  removed : ∀ r ∈ w.removed, r.1 = u.staging ∨ r.1 = u.backup ∧ w.aside = some r.2

section States

variable {u : Upload} {w₀ w w' : World} {f g : Node} {moved : Option Node} {e : UploadError}

theorem Before.since (h : Before u w₀ w) (hs : Since u w w') : Before u w₀ w' where
  frame := hs.frame h.frame
  aside := hs.aside.trans h.aside
  placed := hs.placed.trans h.placed
  removed := by rw [hs.removed]; exact h.removed
  destination ht := by
    obtain ⟨ht, hd⟩ := hs.destination ht
    exact hd.trans (h.destination ht)
  regular := hs.regular h.regular

theorem MovedAside.since (h : MovedAside u g w) (hs : Since u w w') : MovedAside u g w' where
  frame := hs.frame h.frame
  aside := hs.aside.trans h.aside
  removed := by rw [hs.removed]; exact h.removed
  backup := hs.backup.trans h.backup

theorem Published.since (h : Published u f moved w) (hs : Since u w w') : Published u f moved w' where
  frame := hs.frame h.frame
  aside := hs.aside.trans h.aside
  placed := hs.placed.trans h.placed
  removed := by rw [hs.removed]; exact h.removed
  backup := by rw [hs.backup]; exact h.backup
  destination ht := by
    obtain ⟨ht, hd⟩ := hs.destination ht
    exact hd.trans (h.destination ht)

theorem Kept.since (h : Kept u w₀ e w) (hs : Since u w w') : Kept u w₀ e w' where
  removed := by rw [hs.removed]; exact h.removed
  unmoved ha := by
    obtain ⟨hpl, hdest⟩ := h.unmoved (hs.aside.symm.trans ha)
    refine ⟨hs.placed.trans hpl, fun ht => ?_⟩
    obtain ⟨ht, hd⟩ := hs.destination ht
    exact hd.trans (hdest ht)
  moved g hg := by
    rcases h.moved g (hs.aside.symm.trans hg) with hb | ⟨hpl, hdest⟩
    · exact .inl ⟨hs.backup.trans hb.1, hb.2⟩
    · refine .inr ⟨hs.placed.trans hpl, fun ht => ?_⟩
      obtain ⟨ht, hd⟩ := hs.destination ht
      exact hd.trans (hdest ht)

theorem Before.stable : Stable (Before u w₀) := fun _ h => h.since (.elapse h.frame)

theorem Staged.stable : Stable (Staged u w₀ f) := fun _ h =>
  ⟨h.toBefore.since (Since.elapse h.frame), (Since.elapse h.frame).staging.trans h.staging⟩

theorem MovedAside.stable : Stable (MovedAside u g) := fun _ h => h.since (.elapse h.frame)

theorem Published.stable : Stable (Published u f moved) := fun _ h => h.since (.elapse h.frame)

theorem Kept.stable : Stable fun w => Frame u w ∧ Kept u w₀ e w := fun _ h =>
  ⟨(Since.elapse h.1).frame h.1, h.2.since (Since.elapse h.1)⟩

theorem Before.kept (h : Before u w₀ w) : Kept u w₀ e w where
  removed := h.removed
  unmoved _ := ⟨h.placed, h.destination⟩
  moved g hg := absurd (hg.symm.trans h.aside) (some_ne_none g)

theorem MovedAside.kept (h : MovedAside u g w) (he : e.Reports u.backup ∨ e.Stranded u) : Kept u w₀ e w where
  removed := h.removed
  unmoved ha := absurd (h.aside.symm.trans ha) (some_ne_none g)
  moved g' hg' := by
    rw [h.aside, some.injEq] at hg'
    exact .inl ⟨hg' ▸ h.backup, he⟩

/-! ### What each change leads to -/

/-- The staging file is changed. -/
theorem Before.write (h : Before u w₀ w) (x : Option Node) {removed : List (Path × Node)} (hrm : ∀ r ∈ removed, r.1 = u.staging) :
    Before u w₀ { w with files := Function.update w.files u.staging x, removed := removed } := by
  have hd : Function.update w.files u.staging x u.destination = w.files u.destination := update_of_ne (staging_ne_destination u).symm _ _
  refine ⟨⟨h.frame.watched, h.frame.quiet⟩, h.aside, h.placed, hrm, ?_, ?_⟩
  · simp only [hd]
    exact h.destination
  · simp only [hd]
    exact h.regular

theorem Staged.change (h : Staged u w₀ f w) (k : Node → Node) : Staged u w₀ (k f) (w.change u.staging k) := by
  refine ⟨h.toBefore.write _ h.removed, ?_⟩
  rw [World.change, h.staging]
  exact update_self u.staging _ w.files

/-- The staging file is opened. -/
theorem Before.truncate (h : Before u w₀ w) : ∃ f, Staged u w₀ f (w.truncate u.staging) ∧ f.bytes = [] := by
  cases hn : w.files u.staging with
  | none =>
    simp only [World.truncate, hn]
    exact ⟨.empty, ⟨h.write _ h.removed, update_self u.staging _ w.files⟩, rfl⟩
  | some node =>
    simp only [World.truncate, hn]
    refine ⟨{ node with bytes := [] }, ⟨h.write _ fun r hr => ?_, update_self u.staging _ w.files⟩, rfl⟩
    rcases mem_cons.mp hr with rfl | hr
    · rfl
    · exact h.removed r hr

/-- The staging file is renamed to the destination, where there was no file. -/
theorem Staged.publish (h : Staged u w₀ f w) : Published u f none (w.move u.staging u.destination f) where
  frame := ⟨h.frame.watched, h.frame.quiet⟩
  aside := (if_neg fun heq => staging_ne_destination u (heq.trans h.frame.watched)).trans h.aside
  placed := if_pos h.frame.watched.symm
  removed r hr := .inl (h.removed r hr)
  backup _ hg := nomatch hg
  destination _ := update_self u.destination _ _

/-- The staging file takes the place of what was moved aside. -/
theorem MovedAside.publish (h : MovedAside u g w) (f : Node) : Published u f (some g) (w.move u.staging u.destination f) where
  frame := ⟨h.frame.watched, h.frame.quiet⟩
  aside := (if_neg fun heq => staging_ne_destination u (heq.trans h.frame.watched)).trans h.aside
  placed := if_pos h.frame.watched.symm
  removed r hr := .inl (h.removed r hr)
  backup g' hg' node hn := by
    rw [some.injEq] at hg'
    simp only [World.move, update_of_ne (backup_ne_destination u), update_of_ne (staging_ne_backup u).symm,
      h.backup, some.injEq] at hn
    exact hn.symm.trans hg'
  destination _ := update_self u.destination _ _

/-- The backup is removed. -/
theorem Published.remove (h : Published u f (some g) w) {node : Node} (hn : w.files u.backup = some node) :
    Published u f (some g) (w.remove u.backup node) where
  frame := ⟨h.frame.watched, h.frame.quiet⟩
  aside := h.aside
  placed := h.placed
  removed r hr := by
    rcases mem_cons.mp hr with rfl | hr
    · exact .inr ⟨rfl, congrArg some (h.backup g rfl node hn).symm⟩
    · exact h.removed r hr
  backup _ _ node' hn' := by
    have hnone : (w.remove u.backup node).files u.backup = none := update_self u.backup _ _
    exact absurd (hn'.symm.trans hnone) (some_ne_none _)
  destination ht := by
    simp only [World.remove, update_of_ne (backup_ne_destination u).symm]
    exact h.destination ht

/-- The staging file is removed. -/
theorem Kept.remove (h : Kept u w₀ e w) (node : Node) : Kept u w₀ e (w.remove u.staging node) := by
  have hb : (w.remove u.staging node).files u.backup = w.files u.backup := by
    simp only [World.remove, update_of_ne (staging_ne_backup u).symm]
  have hd : (w.remove u.staging node).files u.destination = w.files u.destination := by
    simp only [World.remove, update_of_ne (staging_ne_destination u).symm]
  refine ⟨fun r hr => ?_, ?_, ?_⟩
  · rcases mem_cons.mp hr with rfl | hr
    · rfl
    · exact h.removed r hr
  · rw [hd]
    exact h.unmoved
  · rw [hb, hd]
    exact h.moved

theorem Published.done (h : Published u f moved w) (hbs : f.bytes = u.chunks.flatten)
    (he : ∀ g expected, moved = some g → u.expected = some expected →
      g.bytes = expected.bytes ∧ metadataMatches expected.metadata g.attributes = true) : Done u w where
  placed := ⟨f, h.placed, hbs, h.destination⟩
  expected g expected hg := he g expected (h.aside.symm.trans hg)
  removed r hr := by
    rw [h.aside]
    exact h.removed r hr

end States

end Pebrel.Sftp
