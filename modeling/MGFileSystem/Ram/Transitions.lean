import MGFileSystem.Ram.Calls

/-! What a guarded operation does to a well-formed state: it succeeds, and it makes one
of five state changes. Every invariant and every effect is read off these five. -/
namespace MGFileSystem
open FilesystemData

/-- The state changes of guarded operations, with the facts their guards establish. -/
inductive Transition (ctx : CallContext) (s : FilesystemData) : Operation → FilesystemData → Prop
  | create {p : AbsPath} {mode : UInt32} {i : Nat} (fresh : p.bytes ∉ s.filePaths ++ s.dirPaths)
      (parent : s.dirIndex p.parent.bytes = some i) :
      Transition ctx s (.create p mode) (s.addFile ctx p mode i)
  | mkdir {p : AbsPath} {mode : UInt32} {i : Nat} (fresh : p.bytes ∉ s.filePaths ++ s.dirPaths)
      (parent : s.dirIndex p.parent.bytes = some i) :
      Transition ctx s (.mkdir p mode) (s.addDirectory ctx p i)
  | unlink {p : AbsPath} (found : p.bytes ∈ s.filePaths) :
      Transition ctx s (.unlink p) (s.dropFile p.bytes)
  | rename {p q : AbsPath} {i : Nat} (found : p.bytes ∈ s.filePaths) (ne : p ≠ q)
      (free : q.bytes ∉ s.dirPaths) (parent : q.parent.bytes ∈ s.dirPaths)
      (slot : (s.dropFile q.bytes).fileIndex p.bytes = some i) :
      Transition ctx s (.rename p q) ((s.dropFile q.bytes).assign i (moveTo q.toCString))
  | edit {op : Operation} {p : AbsPath} {f : SimpleFile → SimpleFile} {i : Nat}
      (assigns : op.edit = some (p, f)) (slot : s.fileIndex p.bytes = some i) :
      Transition ctx s op (s.assign i f)

namespace Operation
variable {ctx : CallContext} {s : FilesystemData} {op : Operation} {p : AbsPath}
  {f : SimpleFile → SimpleFile} (he : op.edit = some (p, f))
include he

theorem guard_edit : op.Guard ctx s ↔ FileAt s p := by
  cases op <;> cases he <;> rfl

theorem perform_edit (ctx : CallContext) :
    ∃ code : Int, op.perform ctx = (do assignFile p.toCString f; return code) := by
  cases op <;> cases he <;> exact ⟨_, rfl⟩

/-- An edit keeps both names of the file. -/
theorem edit_keeps_names (a : SimpleFile) : (f a).path = a.path ∧ (f a).name = a.name := by
  cases op <;> cases he <;> exact ⟨rfl, rfl⟩

end Operation

namespace FilesystemData.WellFormed
variable {s : FilesystemData} (h : s.WellFormed)
include h

theorem ne_root_of_fresh {p : AbsPath} (hp : p.bytes ∉ s.filePaths ++ s.dirPaths) : p ≠ .root := by
  rintro rfl
  exact hp (List.mem_append_right _ h.root)

/-- A file other than the one removed is still found. -/
theorem exists_slot_dropFile {p q : AbsPath} (hp : p.bytes ∈ s.filePaths) (hne : p ≠ q) :
    ∃ i, (s.dropFile q.bytes).fileIndex p.bytes = some i := by
  rw [← Option.isSome_iff_exists, (h.dropFile q.bytes).fileIndex_isSome, filePaths_dropFile h]
  exact (List.mem_erase_of_ne (mt AbsPath.bytes_injective.mp hne)).mpr hp

theorem free_dropFile {q : AbsPath} (hq : q.bytes ∉ s.dirPaths) :
    q.bytes ∉ (s.dropFile q.bytes).filePaths ++ (s.dropFile q.bytes).dirPaths := by
  rw [filePaths_dropFile h, dirPaths_dropFile, List.mem_append]
  exact not_or.mpr ⟨PathTree.not_mem_erase h q.bytes, hq⟩

/-- A guarded operation succeeds and makes its state change. -/
theorem perform_guarded {ctx : CallContext} {op : Operation} (hg : op.Guard ctx s) :
    ∃ code s', (op.perform ctx).run s = .ok code s' ∧ Transition ctx s op s' := by
  cases he : op.edit with
  | some pf =>
    obtain ⟨p, f⟩ := pf
    obtain ⟨code, hcode⟩ := Operation.perform_edit he ctx
    obtain ⟨i, hi⟩ := ((Operation.guard_edit he).mp hg).exists_slot
    refine ⟨code, s.assign i f, ?_, .edit he hi⟩
    rw [hcode, EStateM.run_bind, run_assignFile hi]
    rfl
  | none =>
    cases op with
    | create p mode =>
      obtain ⟨ha, hd⟩ := hg
      obtain ⟨i, hi⟩ := hd.exists_slot
      have hp := h.absent_iff.mp ha
      refine ⟨0, s.addFile ctx p mode i, ?_, .create hp hi⟩
      simp only [Operation.perform, mgCreate, filesystemData, EStateM.run_bind,
        run_createFile (h.ne_root_of_fresh hp) mode hi]
      rfl
    | mkdir p mode =>
      obtain ⟨ha, hd⟩ := hg
      obtain ⟨i, hi⟩ := hd.exists_slot
      have hp := h.absent_iff.mp ha
      refine ⟨0, s.addDirectory ctx p i, ?_, .mkdir hp hi⟩
      simp only [Operation.perform, mgMkdir, filesystemData, EStateM.run_bind,
        run_createDirectory (h.ne_root_of_fresh hp) mode hi]
      rfl
    | unlink p =>
      refine ⟨0, s.dropFile p.bytes, ?_, .unlink (h.fileAt_iff.mp hg)⟩
      simp only [Operation.perform, mgUnlink, filesystemData, EStateM.run_bind, run_removeFile]
      rfl
    | rename p q =>
      obtain ⟨hf, hne, hq, hd⟩ := hg
      have hp := h.fileAt_iff.mp hf
      obtain ⟨i, hi⟩ := h.exists_slot_dropFile hp hne
      refine ⟨0, _, ?_, .rename hp hne (mt h.directoryAt_iff.mpr hq) (h.directoryAt_iff.mp hd) hi⟩
      simp only [Operation.perform, mgRename, filesystemData, EStateM.run_bind, run_renameFile hi]
      rfl
    | write | truncate | chmod | chown | utimens => cases he

end FilesystemData.WellFormed

namespace Transition
variable {ctx : CallContext} {s s' : FilesystemData} {op : Operation} (h : s.WellFormed)
  (ht : Transition ctx s op s')
include h ht

theorem wellFormed : s'.WellFormed := by
  cases ht with
  | create fresh parent => exact h.addFile fresh (h.dirIndex_isSome.mp (by rw [parent]; rfl)) _ _
  | mkdir fresh parent => exact h.addDirectory fresh (h.dirIndex_isSome.mp (by rw [parent]; rfl)) _
  | unlink => exact h.dropFile _
  | rename _ _ free parent slot =>
    exact (h.dropFile _).moveTo slot (h.free_dropFile free) (by rwa [dirPaths_dropFile])
  | edit assigns => exact h.assign (fun a => (Operation.edit_keeps_names assigns a).1) _

end Transition
end MGFileSystem
