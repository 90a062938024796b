import MGFileSystem.Foundations.PosixPath
import MGFileSystem.Machine.Paths
import MGFileSystem.Ssh.SshBackend

/-! Where the full paths of `ssh_backend` lead on the remote host: into the exported
directory, and two paths to two places. -/
namespace MGFileSystem
open PosixPath

def dot : Byte := 46

/-- The string that `get_full_path` returns. -/
def fullPath (mountDir : Bytes) (path : CString) : Bytes := mountDir ++ text "/" ++ path.bytes

/-- The remote operations use its text, which is the whole string unless `_mount_dir` holds a NUL. -/
theorem getFullPath_eq {mountDir : Bytes} (h : 0 ∉ mountDir) (path : CString) :
    SshBackend.getFullPath mountDir path = fullPath mountDir path := by
  refine cStr_of_nul_free ?_
  rw [List.mem_append, List.mem_append, not_or, not_or]
  exact ⟨⟨h, by decide⟩, path.nul_free⟩

theorem fullPath_eq (mountDir : Bytes) (path : CString) : fullPath mountDir path = mountDir ++ slash :: path.bytes :=
  List.append_assoc mountDir [slash] path.bytes

/-- A normalised path other than the root is its components, each after a slash. -/
theorem Normalised.spell_components {b : Bytes} (h : Normalised b) (hr : b ≠ [slash]) :
    spell slash (components slash b) = b := by
  refine Normalised.induction (P := fun b => spell slash (components slash b) = b) (fun n hn hne => ?_)
    (fun d n _ _ hn hne ih => ?_) h hr
  · rw [components_cons, components_of_not_mem hn hne, spell, List.flatMap_singleton]
  · rw [spell] at ih
    rw [components_append, components_of_not_mem hn hne, spell, List.flatMap_append, ih, List.flatMap_singleton]

/-- Normalised paths are told apart by their components. -/
theorem AbsPath.components_injective {p q : AbsPath} (h : components slash p.bytes = components slash q.bytes) :
    p = q := by
  have hroot : ∀ r : AbsPath, components slash r.bytes = [] → r = .root := by
    intro r hr
    by_contra hne
    have hspell := r.normalised.spell_components (bytes_ne_root hne)
    rw [hr] at hspell
    exact r.ne_nil hspell.symm
  have hcomponents : components slash AbsPath.root.bytes = [] := by decide
  by_cases hp : p = .root
  · rw [hp, hcomponents] at h
    rw [hp, hroot q h.symm]
  · by_cases hq : q = .root
    · rw [hq, hcomponents] at h
      exact absurd (hroot p h) hp
    · apply AbsPath.ext
      rw [← p.normalised.spell_components (bytes_ne_root hp), h, q.normalised.spell_components (bytes_ne_root hq)]

/-- Full paths of paths without dots lead below the exported directory, for any `_mount_dir`, and different
normalised paths lead to different places. The remote operations use the full path as it is, if `_mount_dir` holds
no NUL. -/
theorem fullPath_stays_exported (mountDir : Bytes) :
    (∀ path : CString, Plain slash dot path.bytes →
      resolve slash dot (fullPath mountDir path) = resolve slash dot mountDir ++ components slash path.bytes ∧
      resolve slash dot mountDir <+: resolve slash dot (fullPath mountDir path) ∧
      (0 ∉ mountDir → SshBackend.getFullPath mountDir path = fullPath mountDir path)) ∧
    ∀ p q : AbsPath, Plain slash dot p.bytes → Plain slash dot q.bytes →
      resolve slash dot (fullPath mountDir p.toCString) = resolve slash dot (fullPath mountDir q.toCString) → p = q := by
  have hresolve : ∀ path : CString, Plain slash dot path.bytes →
      resolve slash dot (fullPath mountDir path) = resolve slash dot mountDir ++ components slash path.bytes := by
    intro path hpath
    rw [fullPath_eq, resolve_append hpath]
  refine ⟨fun path hpath => ⟨hresolve path hpath, ?_, fun h => getFullPath_eq h path⟩, fun p q hp hq h => ?_⟩
  · rw [hresolve path hpath]
    exact List.prefix_append _ _
  · rw [hresolve _ hp, hresolve _ hq] at h
    exact AbsPath.components_injective (List.append_cancel_left h)

theorem fullPath_stays_exported_srv :
    resolve slash dot (fullPath (text "/srv//x/..") ⟨text "/a/b", by decide⟩) = [text "srv", text "a", text "b"] :=
  ((fullPath_stays_exported (text "/srv//x/..")).1 ⟨text "/a/b", by decide⟩ (by decide)).1.trans (by decide)

end MGFileSystem
