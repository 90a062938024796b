import MGFileSystem.Ram.Refinement
import MGFileSystem.Foundations.Footprint

/-! Operations on disjoint paths commute up to observation. The vectors end in different
orders, so the two states are compared through the objects their searches find. -/
namespace MGFileSystem
open FilesystemData

namespace Operation
variable {ctx : CallContext} {op : Operation} {A : ObjectMap}

theorem footprint (ctx : CallContext) (op : Operation) :
    Footprint (op.effect ctx) {q | q ∈ op.paths} where
  outside A q hq := effect_of_not_mem hq A
  inside A B h q hq := by
    cases op with
    | rename p r =>
      have hp : A p = B p := h p List.mem_cons_self
      rcases List.mem_pair.mp hq with rfl | rfl
      · by_cases hr : q = r
        · subst hr
          simp only [effect, Function.update_self, hp]
        · simp only [effect, Function.update_of_ne hr, Function.update_self]
      · simp only [effect, Function.update_self, hp]
    | create p | mkdir p | unlink p | write p | truncate p | chmod p | chown p | utimens p =>
      obtain rfl : q = p := List.mem_singleton.mp hq
      have hp : A q = B q := h q hq
      simp only [effect, Function.update_self, hp]

/-- The kernel's checks, as conditions on what the paths name. -/
def GuardOn (A : ObjectMap) : Operation → Prop
  | create p _ | mkdir p _ => kindOf A p = none ∧ kindOf A p.parent = some true
  | rename p q => kindOf A p = some false ∧ p ≠ q ∧ kindOf A q ≠ some true ∧ kindOf A q.parent = some true
  | unlink p | write p _ _ _ | truncate p _ | chmod p _ | chown p _ _ | utimens p _ _ =>
    kindOf A p = some false

/-- The parents whose existence the checks ask for. -/
def parents : Operation → List AbsPath
  | create p _ | mkdir p _ => [p.parent]
  | rename _ q => [q.parent]
  | _ => []

theorem guardOn_congr {B : ObjectMap} (hpaths : ∀ q ∈ op.paths, kindOf A q = kindOf B q)
    (hparents : ∀ q ∈ op.parents, kindOf A q = some true → kindOf B q = some true) (h : op.GuardOn A) :
    op.GuardOn B := by
  cases op with
  | create p | mkdir p =>
    simp only [paths, parents, List.mem_singleton, forall_eq, GuardOn] at *
    exact ⟨hpaths ▸ h.1, hparents h.2⟩
  | rename p q =>
    simp only [paths, parents, List.mem_pair, List.mem_singleton, forall_eq, forall_eq_or_imp, GuardOn] at *
    exact ⟨hpaths.1 ▸ h.1, h.2.1, hpaths.2 ▸ h.2.2.1, hparents h.2.2.2⟩
  | unlink p | write p | truncate p | chmod p | chown p | utimens p =>
    simp only [paths, List.mem_singleton, forall_eq, GuardOn] at *
    exact hpaths ▸ h

/-- A guarded operation names no existing directory. -/
theorem kindOf_of_mem_paths (h : op.GuardOn A) {q : AbsPath} (hq : q ∈ op.paths) : kindOf A q ≠ some true := by
  cases op with
  | rename p r =>
    rcases List.mem_pair.mp hq with rfl | rfl
    · rw [h.1]
      decide
    · exact h.2.2.1
  | create p | mkdir p =>
    obtain rfl := List.mem_singleton.mp hq
    rw [h.1]
    decide
  | unlink p | write p | truncate p | chmod p | chown p | utimens p =>
    obtain rfl := List.mem_singleton.mp hq
    rw [GuardOn] at h
    rw [h]
    decide

/-- The only operation that makes a directory is `mkdir`. -/
theorem eq_mkdir_of_kindOf (h : op.GuardOn A) {q : AbsPath} (hq : q ∈ op.paths)
    (hk : kindOf (op.effect ctx A) q = some true) : ∃ mode, op = mkdir q mode := by
  cases op with
  | mkdir p mode =>
    obtain rfl := List.mem_singleton.mp hq
    exact ⟨mode, rfl⟩
  | rename p r =>
    rcases List.mem_pair.mp hq with rfl | rfl
    · rw [kindOf, effect, Function.update_of_ne h.2.1, Function.update_self] at hk
      cases hk
    · rw [kindOf, effect, Function.update_self] at hk
      cases h.1.symm.trans hk
  | create p | unlink p =>
    obtain rfl := List.mem_singleton.mp hq
    rw [kindOf, effect, Function.update_self] at hk
    cases hk
  | write p | truncate p | chmod p | chown p | utimens p =>
    obtain rfl := List.mem_singleton.mp hq
    rw [kindOf, effect, Function.update_self, Option.map_map] at hk
    cases h.symm.trans hk

variable {op₁ op₂ : Operation} {ctx₁ ctx₂ : CallContext} (hd : op₁.paths.Disjoint op₂.paths)
include hd

theorem effect_comm (A : ObjectMap) :
    op₂.effect ctx₂ (op₁.effect ctx₁ A) = op₁.effect ctx₁ (op₂.effect ctx₂ A) :=
  (footprint ctx₂ op₂).comm (footprint ctx₁ op₁) (fun _ h₂ h₁ => hd h₁ h₂) A

/-- Checks that pass after an independent operation passed before it. -/
theorem guardOn_before (h₁ : op₁.GuardOn A) (h₂ : op₂.GuardOn (op₁.effect ctx₁ A))
    (hm : ∀ mode, ∀ q ∈ op₂.paths, op₁ ≠ mkdir q.parent mode) : op₂.GuardOn A := by
  have hparent : ∀ q ∈ op₂.parents, ∃ p ∈ op₂.paths, q = p.parent := by
    cases op₂ <;> simp [parents, paths]
  refine guardOn_congr (fun q hq => ?_) (fun q hq hk => ?_) h₂
  · rw [kindOf, effect_of_not_mem fun hq' => hd hq' hq]
    rfl
  · by_cases hq' : q ∈ op₁.paths
    · obtain ⟨p, hp, rfl⟩ := hparent q hq
      obtain ⟨mode, hmode⟩ := eq_mkdir_of_kindOf h₁ hq' hk
      exact absurd hmode (hm mode p hp)
    · rwa [kindOf, effect_of_not_mem hq'] at hk

/-- Checks that pass before an independent guarded operation pass after it. -/
theorem guardOn_after (h₁ : op₁.GuardOn A) (h₂ : op₂.GuardOn A) : op₁.GuardOn (op₂.effect ctx₂ A) := by
  refine guardOn_congr (fun q hq => ?_) (fun q _ hk => ?_) h₁
  · rw [kindOf, kindOf, effect_of_not_mem fun hq' => hd hq hq']
  · have hq' : q ∉ op₂.paths := fun hq' => kindOf_of_mem_paths h₂ hq' hk
    rwa [kindOf, effect_of_not_mem hq']

end Operation

namespace FilesystemData.WellFormed
variable {s : FilesystemData} (h : s.WellFormed)
include h

theorem guard_iff {ctx : CallContext} {op : Operation} : op.Guard ctx s ↔ op.GuardOn s.objects := by
  cases op <;>
    simp only [Operation.Guard, Operation.GuardOn, h.absent_iff_kind, h.directoryAt_iff_kind, h.fileAt_iff_kind,
      ne_eq]

/-- What a search in the files finds is a file of the map, and likewise for directories. -/
theorem lookup_eq_filter (p : AbsPath) :
    (KeyedList.lookup SimpleFile.key s.theFiles.elems p.bytes).map (SimpleFile.object false) =
        (s.objects p).filter (fun o => !o.isDirectory) ∧
      (KeyedList.lookup SimpleFile.key s.dirRecords p.bytes).map (SimpleFile.object true) =
        (s.objects p).filter (fun o => o.isDirectory) := by
  rw [objects_eq_objectsOf, objectsOf]
  by_cases hf : p.bytes ∈ s.filePaths
  · rw [lookup_dirRecords_eq_none h (h.disjoint hf)]
    cases KeyedList.lookup SimpleFile.key s.theFiles.elems p.bytes <;> exact ⟨rfl, rfl⟩
  · rw [lookup_files_eq_none h hf]
    cases KeyedList.lookup SimpleFile.key s.dirRecords p.bytes <;> exact ⟨rfl, rfl⟩

theorem lookup_eq_none_of_not_path {b : Bytes} (hb : ∀ p : AbsPath, p.bytes ≠ b) :
    KeyedList.lookup SimpleFile.key s.theFiles.elems b = none ∧
      KeyedList.lookup SimpleFile.key s.dirRecords b = none := by
  rw [KeyedList.lookup_eq_none, KeyedList.lookup_eq_none, h.file_keys, h.record_keys, ← not_or, ← List.mem_append]
  intro hm
  obtain ⟨p, hp⟩ := h.normalised b hm
  exact hb p hp

/-- States of one object map hold the same objects under every name, also one that is no path. -/
theorem lookups_congr {t : FilesystemData} (ht : t.WellFormed) (he : s.objects = t.objects) (b : Bytes) :
    (KeyedList.lookup SimpleFile.key s.theFiles.elems b).map (SimpleFile.object false) =
        (KeyedList.lookup SimpleFile.key t.theFiles.elems b).map (SimpleFile.object false) ∧
      (KeyedList.lookup SimpleFile.key s.dirRecords b).map (SimpleFile.object true) =
        (KeyedList.lookup SimpleFile.key t.dirRecords b).map (SimpleFile.object true) := by
  by_cases hb : ∃ p : AbsPath, p.bytes = b
  · obtain ⟨p, rfl⟩ := hb
    rw [(lookup_eq_filter h p).1, (lookup_eq_filter h p).2, (lookup_eq_filter ht p).1, (lookup_eq_filter ht p).2, he]
    exact ⟨rfl, rfl⟩
  · have hne : ∀ p : AbsPath, p.bytes ≠ b := fun p hp => hb ⟨p, hp⟩
    rw [(lookup_eq_none_of_not_path h hne).1, (lookup_eq_none_of_not_path h hne).2,
      (lookup_eq_none_of_not_path ht hne).1, (lookup_eq_none_of_not_path ht hne).2]
    exact ⟨rfl, rfl⟩

/-- States of one object map answer every search alike, also for paths that are not normalised. -/
theorem found_congr {t : FilesystemData} (ht : t.WellFormed) (he : s.objects = t.objects) (b : Bytes) :
    (s.ptrAt b).map FilePtr.object = (t.ptrAt b).map FilePtr.object := by
  rw [map_object_ptrAt, map_object_ptrAt, (h.lookups_congr ht he b).1, (h.lookups_congr ht he _).2]

end FilesystemData.WellFormed

/-- The content that `get_fileptr_for_filename` finds under a path. -/
def FilesystemData.contentFound (s : FilesystemData) (q : CString) : Except Fault (Option Bytes) :=
  (Option.map (fun f => f.target.content) <$> getFileptrForFilename q.bytes).answer s

/-- No path, of whatever form, shows a difference in attributes or content. -/
def FilesystemData.SameAnswers (s t : FilesystemData) : Prop :=
  ∀ q : CString, (∀ ctx st, (mgGetattr (filesystemData ctx) ctx q st).answer s =
    (mgGetattr (filesystemData ctx) ctx q st).answer t) ∧ s.contentFound q = t.contentFound q

namespace FilesystemData.WellFormed
variable {s : FilesystemData} (h : s.WellFormed)
include h

theorem fileIndex_nil : s.fileIndex [] = none := by
  rw [← Option.not_isSome_iff_eq_none, h.fileIndex_isSome]
  intro hm
  obtain ⟨p, hp⟩ := h.normalised [] (List.mem_append_left _ hm)
  exact p.ne_nil hp

theorem answers_nil {q : CString} (hq : q.bytes = []) (ctx : CallContext) (st : Stat) :
    (mgGetattr (filesystemData ctx) ctx q st).answer s = .error .emptyBack ∧
      s.contentFound q = .error .emptyBack := by
  have hdir : (getIndexForDirname q).run s = .error .emptyBack s := by simp [getIndexForDirname, hq]
  have hroot : ¬ ([] : Bytes) = text "/" := by decide
  constructor
  · simp [Method.answer, mgGetattr, filesystemData, hq, hroot, run_fileExists, h.fileIndex_nil,
      directoryExists, hdir]
  · have hptr : (getFileptrForFilename q.bytes).run s = .error .emptyBack s := by
      simp only [getFileptrForFilename, q.ofBytes_self, EStateM.run_bind, run_getIndexForFilename]
      rw [hq, h.fileIndex_nil]
      simp [hdir]
    simp only [contentFound, Method.answer, Method.run_map, hptr]

/-- A path under which both states find the same object shows no difference. -/
theorem sameAnswers_at {t : FilesystemData} (ht : t.WellFormed) {q : CString}
    (hfound : (s.ptrAt q.bytes).map FilePtr.object = (t.ptrAt q.bytes).map FilePtr.object) :
    (∀ ctx st, (mgGetattr (filesystemData ctx) ctx q st).answer s =
      (mgGetattr (filesystemData ctx) ctx q st).answer t) ∧ s.contentFound q = t.contentFound q := by
  by_cases hq : q.bytes = []
  · refine ⟨fun ctx st => ?_, ?_⟩
    · rw [(h.answers_nil hq ctx st).1, (ht.answers_nil hq ctx st).1]
    · rw [(h.answers_nil hq .plain ⟨0, 0, 0, 0, 0, 0, 0⟩).2, (ht.answers_nil hq .plain ⟨0, 0, 0, 0, 0, 0, 0⟩).2]
  · refine ⟨fun ctx st => ?_, ?_⟩
    · simp only [Method.answer, run_mgGetattr hq, hfound]
    · have hcontent : ∀ f : FilePtr, f.target.content = f.object.content := by rintro ⟨⟩ <;> rfl
      have hrun : ∀ u : FilesystemData, u.contentFound q =
          .ok (((u.ptrAt q.bytes).map FilePtr.object).map Object.content) := by
        intro u
        simp only [contentFound, Method.answer, Method.run_map, run_getFileptrForFilename hq, Option.map_map,
          hcontent]
        rfl
      rw [hrun, hrun, hfound]

theorem sameAnswers {t : FilesystemData} (ht : t.WellFormed) (he : s.objects = t.objects) : s.SameAnswers t :=
  fun q => h.sameAnswers_at ht (h.found_congr ht he q.bytes)

end FilesystemData.WellFormed

end MGFileSystem
