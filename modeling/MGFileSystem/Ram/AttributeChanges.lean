import MGFileSystem.Ram.OneFile

/-! Changes of mode, owner and times. `mg_getattr` finds files and directories, but the setters
search the files alone. -/
namespace MGFileSystem
open FilesystemData

/-- A callback that changes attributes, without its path. -/
inductive AttributeChange where
  | chmod (mode : UInt32)
  | chown (user group : UInt32)
  | utimens (access modification : Timespec)

namespace AttributeChange

def perform (ctx : CallContext) (p : CString) : AttributeChange → Method FilesystemData Int
  | chmod mode => mgChmod (filesystemData ctx) p mode
  | chown user group => mgChown (filesystemData ctx) p user group
  | utimens access modification => mgUtimens (filesystemData ctx) p access modification

def operation (p : AbsPath) : AttributeChange → Operation
  | chmod mode => .chmod p mode
  | chown user group => .chown p user group
  | utimens access modification => .utimens p access modification

/-- The attributes with the new ones in them. -/
def apply (st : Stat) : AttributeChange → Stat
  | chmod mode => { st with mode := mode }
  | chown user group => { st with uid := user, gid := group }
  | utimens access modification => { st with atime := access.sec, mtime := modification.sec }

/-- The callback returns, and `mg_getattr` reports the new attributes and the others as before. The
attributes of the root are constants. -/
def TakesEffect (s : FilesystemData) (p : CString) (change : AttributeChange) : Prop :=
  ∀ ctx, ∃ code s', (change.perform ctx p).run s = .ok code s' ∧
    (p ≠ AbsPath.root.toCString → ∀ ctx' st st₀,
      (mgGetattr (filesystemData ctx') ctx' p st).answer s = .ok (0, st₀) →
        (mgGetattr (filesystemData ctx') ctx' p st).answer s' = .ok (0, change.apply st₀))

theorem run_missing {s : FilesystemData} {p : CString} (h : s.fileIndex p.bytes = none) (ctx : CallContext)
    (change : AttributeChange) : (change.perform ctx p).run s = .error .assertion s := by
  have hassign := fun f => run_assignFile_missing h f
  cases change <;>
    simp only [perform, mgChmod, mgChown, mgUtimens, filesystemData, EStateM.run_bind, setFileMode,
      changeOwnership, setAccessAndModificationTimes, hassign]

/-- The effect on the file of the path is the change of its attributes. -/
theorem effect_stat {A : ObjectMap} {p : AbsPath} {o : Object} (h : A p = some o) (hk : o.isDirectory = false)
    (ctx : CallContext) (change : AttributeChange) :
    ∃ o', (change.operation p).effect ctx A p = some o' ∧ o'.isDirectory = false ∧
      o'.stat = change.apply o.stat := by
  cases change <;>
    simp only [operation, Operation.effect, Function.update_self, h, Option.map_some, Option.some.injEq,
      exists_eq_left'] <;> exact ⟨hk, rfl⟩

theorem takesEffect_of_file {s : FilesystemData} (hw : s.WellFormed) {p : AbsPath} (hf : FileAt s p)
    (change : AttributeChange) : change.TakesEffect s p.toCString := by
  intro ctx
  have hg : (change.operation p).Guard ctx s := by cases change <;> exact hf
  obtain ⟨code, s', hr, ht⟩ := hw.perform_guarded hg
  refine ⟨code, s', ?_, ?_⟩
  · cases change <;> exact hr
  · intro _ ctx' st st₀ h₀
    obtain ⟨o, hfile⟩ := hw.holdsFile hf
    obtain ⟨o', ho', hk, hstat⟩ := effect_stat hfile.object hfile.isFile ctx change
    have hfile' : HoldsFile p o' s' := ⟨ht.wellFormed hw, by rw [ht.objects hw, ho'], hk⟩
    rw [hfile.answer_mgGetattr] at h₀
    obtain ⟨-, rfl⟩ := Prod.mk.inj (Except.ok.inj h₀)
    rw [hfile'.answer_mgGetattr, hstat]

end AttributeChange

/-- A change of attributes works on exactly the paths that name a file: on a directory that `mg_getattr`
reports the assertion of the setter fails. -/
theorem attribute_change_iff {s : FilesystemData} (h : ramSystem.Reachable s) (p : CString)
    (change : AttributeChange) : change.TakesEffect s p ↔ (fileExists p).answer s = .ok true := by
  have hw := wellFormed_of_reachable h
  have hexists : (fileExists p).answer s = .ok true ↔ (s.fileIndex p.bytes).isSome := by
    simp only [Method.answer, run_fileExists, Except.ok.injEq]
  constructor
  · intro he
    rw [hexists, Option.isSome_iff_ne_none]
    intro hmissing
    obtain ⟨code, s', hr, _⟩ := he .plain
    rw [AttributeChange.run_missing hmissing] at hr
    cases hr
  · intro hf
    obtain ⟨q, hq⟩ := hw.normalised p.bytes (List.mem_append_left _ (hw.fileIndex_isSome.mp (hexists.mp hf)))
    obtain rfl : q.toCString = p := CString.ext hq
    exact AttributeChange.takesEffect_of_file hw hf change

theorem attribute_change_iff_init :
    (AttributeChange.chmod 0o600).TakesEffect (init .plain) mgFile1.toCString ↔
      (fileExists mgFile1.toCString).answer (init .plain) = .ok true :=
  attribute_change_iff (.start ⟨.plain, rfl⟩) mgFile1.toCString (.chmod 0o600)

/-- The constructor's directory has attributes that no callback can change. -/
theorem mgChmod_aborts_on_directory :
    ramSystem.Reachable (init .plain) ∧
      (Prod.fst <$> mgGetattr (filesystemData .plain) .plain mgDir1.toCString ⟨0, 0, 0, 0, 0, 0, 0⟩).answer
        (init .plain) = .ok 0 ∧
      (mgChmod (filesystemData .plain) mgDir1.toCString 0o700).run (init .plain) = .error .assertion (init .plain) ∧
      ¬ (AttributeChange.chmod 0o700).TakesEffect (init .plain) mgDir1.toCString := by
  refine ⟨.start ⟨.plain, rfl⟩, rfl, rfl, fun h => ?_⟩
  obtain ⟨code, s', hr, _⟩ := h .plain
  cases hr

end MGFileSystem
