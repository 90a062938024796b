import MGFileSystem.Ram.Commutation

/-! What `mg_unlink` and `mg_rmdir` report. Both return 0 whatever happens, and there is no
`remove_directory` behind the second. -/
namespace MGFileSystem
open FilesystemData

inductive Removal where
  | unlink
  | rmdir

/-- No path but the one given shows a difference in attributes or content. -/
def FilesystemData.SameElsewhere (p : AbsPath) (s t : FilesystemData) : Prop :=
  ∀ q : CString, q ≠ p.toCString → (∀ ctx st, (mgGetattr (filesystemData ctx) ctx q st).answer s =
    (mgGetattr (filesystemData ctx) ctx q st).answer t) ∧ s.contentFound q = t.contentFound q

namespace Removal

def perform (ctx : CallContext) (p : AbsPath) : Removal → Method FilesystemData Int
  | unlink => mgUnlink (filesystemData ctx) p.toCString
  | rmdir => mgRmdir (filesystemData ctx) p.toCString

/-- What the call may remove: a file, or a directory with nothing below it. -/
def Removable (s : FilesystemData) (p : AbsPath) : Removal → Prop
  | unlink => FileAt s p
  | rmdir => DirectoryAt s p ∧ ∀ q : AbsPath, q ≠ .root → q.parent = p → ¬ FileAt s q ∧ ¬ DirectoryAt s q

/-- The call returns 0 only after it removed the object and nothing else, and any other code only if it
changed nothing. -/
def Truthful (ctx : CallContext) (s : FilesystemData) (p : AbsPath) (r : Removal) : Prop :=
  ∃ code s', (r.perform ctx p).run s = .ok code s' ∧
    (code = 0 → r.Removable s p ∧ (∀ ctx', Absent ctx' s' p) ∧ s'.SameElsewhere p s) ∧ (code ≠ 0 → s' = s)

theorem run_unlink (ctx : CallContext) (p : AbsPath) (s : FilesystemData) :
    (unlink.perform ctx p).run s = .ok 0 (s.dropFile p.bytes) := by
  simp only [perform, mgUnlink, filesystemData, EStateM.run_bind, run_removeFile]
  rfl

theorem run_rmdir (ctx : CallContext) (p : AbsPath) (s : FilesystemData) :
    (rmdir.perform ctx p).run s = .ok 0 s := rfl

end Removal

namespace FilesystemData.WellFormed
variable {s : FilesystemData} (h : s.WellFormed)
include h

theorem sameElsewhere_dropFile (p : AbsPath) : (s.dropFile p.bytes).SameElsewhere p s := by
  intro q hq
  apply (h.dropFile p.bytes).sameAnswers_at h
  have hne : q.bytes ≠ p.bytes := fun he => hq (CString.ext he)
  rw [ptrAt, ptrAt, h.lookup_dropFile, Function.update_of_ne hne, dirRecords_dropFile]

theorem absent_dropFile {p : AbsPath} (hf : FileAt s p) (ctx : CallContext) : Absent ctx (s.dropFile p.bytes) p :=
  (h.dropFile p.bytes).absent_iff.mpr (h.free_dropFile (h.disjoint (h.fileAt_iff.mp hf)))

end FilesystemData.WellFormed

/-- A removal tells the truth exactly when it is the unlinking of a file: a missing path and a directory are
reported as removed too. -/
theorem removal_truthful_iff {s : FilesystemData} (h : ramSystem.Reachable s) (ctx : CallContext) (p : AbsPath)
    (r : Removal) : r.Truthful ctx s p ↔ r = .unlink ∧ FileAt s p := by
  have hw := wellFormed_of_reachable h
  constructor
  · rintro ⟨code, s', hr, hdone, -⟩
    cases r with
    | unlink =>
      rw [Removal.run_unlink] at hr
      cases hr
      exact ⟨rfl, (hdone rfl).1⟩
    | rmdir =>
      rw [Removal.run_rmdir] at hr
      cases hr
      obtain ⟨⟨hd, -⟩, habsent, -⟩ := hdone rfl
      have hp := hw.absent_iff.mp (habsent .plain)
      exact absurd (List.mem_append_right _ (hw.directoryAt_iff.mp hd)) hp
  · rintro ⟨rfl, hf⟩
    exact ⟨0, _, Removal.run_unlink ctx p s,
      fun _ => ⟨hf, hw.absent_dropFile hf, hw.sameElsewhere_dropFile p⟩, fun hne => absurd rfl hne⟩

theorem removal_truthful_iff_unlink :
    Removal.unlink.Truthful .plain (init .plain) mgFile1 ↔ Removal.unlink = .unlink ∧ FileAt (init .plain) mgFile1 :=
  removal_truthful_iff (.start ⟨.plain, rfl⟩) .plain mgFile1 .unlink

/-- A directory just made is still there after the call that reported its removal. -/
theorem mgRmdir_keeps_directory :
    ramSystem.Along ramSystem.guard [⟨.plain, .mkdir notes 0o755⟩] (init .plain) ∧
      ∃ s, ramSystem.exec [⟨.plain, .mkdir notes 0o755⟩] (init .plain) = some s ∧
        (mgRmdir (filesystemData .plain) notes.toCString).run s = .ok 0 s ∧ DirectoryAt s notes ∧
        ¬ Removal.rmdir.Truthful .plain s notes := by
  refine ⟨⟨guard_create_notes, fun _ _ => trivial⟩, _, rfl, rfl, rfl, ?_⟩
  rintro ⟨code, s', hr, hdone, -⟩
  cases hr
  have hfound : (Prod.fst <$> mgGetattr (filesystemData .plain) .plain notes.toCString ⟨0, 0, 0, 0, 0, 0, 0⟩).answer _ =
      .ok (-ENOENT) := (hdone rfl).2.1 .plain ⟨0, 0, 0, 0, 0, 0, 0⟩
  exact absurd hfound (by decide)

end MGFileSystem
