import MGFileSystem.Ram.Refinement

/-! Following one file through a run: the calls that name it act on its object, and the
others keep it. -/
namespace MGFileSystem
open FilesystemData

/-- The state is well formed and `p` names the file `o`. -/
structure HoldsFile (p : AbsPath) (o : Object) (s : FilesystemData) : Prop where
  wellFormed : s.WellFormed
  object : s.objects p = some o
  isFile : o.isDirectory = false

theorem FilesystemData.WellFormed.holdsFile {s : FilesystemData} (h : s.WellFormed) {p : AbsPath} (hf : FileAt s p) :
    ∃ o, HoldsFile p o s := by
  obtain ⟨o, ho, hkind⟩ := Option.map_eq_some_iff.mp (h.fileAt_iff_kind.mp hf)
  exact ⟨o, h, ho, hkind⟩

namespace HoldsFile
variable {p : AbsPath} {o : Object} {s : FilesystemData} (h : HoldsFile p o s)
include h

theorem fileAt : FileAt s p := by
  rw [h.wellFormed.fileAt_iff_kind, kindOf, h.object, Option.map_some, h.isFile]

theorem bytes_ne_root : p.bytes ≠ AbsPath.root.bytes := by
  intro he
  exact h.wellFormed.disjoint (h.wellFormed.fileAt_iff.mp h.fileAt) (he ▸ h.wellFormed.root)

theorem contentAt : s.contentAt p = some o.content := by
  rw [FilesystemData.contentAt, h.object, Option.map_some]

/-- `mg_getattr` reports the attributes of the object. -/
theorem answer_mgGetattr (ctx : CallContext) (st : Stat) :
    (mgGetattr (filesystemData ctx) ctx p.toCString st).answer s = .ok (0, o.stat) := by
  rw [FilesystemData.answer_mgGetattr, h.object, getattrAnswer_some h.bytes_ne_root]

/-- A call that does not name the file keeps it. -/
theorem step_elsewhere {c : Call} (hp : p ∉ c.operation.paths) (hg : ramSystem.guard s c) :
    ∃ s', ramSystem.step c s = some s' ∧ HoldsFile p o s' := by
  obtain ⟨s', hs, hw, ho⟩ := h.wellFormed.step_guarded hg
  have hsame : s'.objects p = s.objects p := (congrFun ho p).trans (Operation.effect_of_not_mem hp _)
  exact ⟨s', hs, hw, hsame.trans h.object, h.isFile⟩

/-- A call that edits the file does to it what its effect says. -/
theorem step_edit {c : Call} (hg : ramSystem.guard s c) {o' : Object}
    (he : c.operation.effect c.ctx s.objects p = some o') (hk : o'.isDirectory = false) :
    ∃ s', ramSystem.step c s = some s' ∧ HoldsFile p o' s' := by
  obtain ⟨s', hs, hw, ho⟩ := h.wellFormed.step_guarded hg
  exact ⟨s', hs, hw, by rw [ho, he], hk⟩

theorem step_write (ctx : CallContext) (buffer : Memory) (size offset : Nat) :
    ∃ s', ramSystem.step ⟨ctx, .write p buffer size offset⟩ s = some s' ∧
      HoldsFile p { o with content := Overlay.insert 0 o.content offset ((cStr buffer).take size) } s' := by
  apply h.step_edit (c := ⟨ctx, .write p buffer size offset⟩) h.fileAt
  · rw [Operation.effect, Function.update_self, h.object, Option.map_some]
  · exact h.isFile

theorem step_truncate (ctx : CallContext) (n : Nat) :
    ∃ s', ramSystem.step ⟨ctx, .truncate p n⟩ s = some s' ∧
      HoldsFile p { o with content := o.content.take n } s' := by
  apply h.step_edit (c := ⟨ctx, .truncate p n⟩) h.fileAt
  · rw [Operation.effect, Function.update_self, h.object, Option.map_some]
  · exact h.isFile

theorem step_chown (ctx : CallContext) (user group : UInt32) :
    ∃ s', ramSystem.step ⟨ctx, .chown p user group⟩ s = some s' ∧
      HoldsFile p { o with user := user, group := group } s' := by
  apply h.step_edit (c := ⟨ctx, .chown p user group⟩) h.fileAt
  · rw [Operation.effect, Function.update_self, h.object, Option.map_some]
  · exact h.isFile

end HoldsFile
end MGFileSystem
