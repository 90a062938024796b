import MGFileSystem.Ram.Listings

/-! Subdirectories in the entry of their parent. `create_directory` writes through a pointer
that `push_back` may have left behind, so the entry is complete only if no vector ever grew. -/
namespace MGFileSystem
open FilesystemData

namespace FilesystemData
variable {s s' : FilesystemData} {ctx : CallContext}

/-- Some entry holds the address of every directory made. -/
def AllLinked (s : FilesystemData) : Prop := ∀ a < s.heap.length, ∃ e ∈ s.entries, a ∈ e.2

/-- The paths of the directories that lie directly in `b`. -/
def subdirectories (s : FilesystemData) (b : Bytes) : List Bytes :=
  s.dirPaths.filter fun q => q ≠ AbsPath.root.bytes ∧ parentBytes q = b

/-- Every directory contains its subdirectories once each, and its listing shows their names. -/
def ListsSubdirectories (s : FilesystemData) : Prop :=
  (∀ d ∈ s.theDirectories.elems,
    (d.containedDirectories.map (s.heapPaths[·]?)).Perm ((s.subdirectories d.directoryFile.path).map some)) ∧
  ∀ p : AbsPath, DirectoryAt s p → ∃ names, (listFilesInDir p.toCString).answer s = .ok (names ++ s.fileNames) ∧
    names.Perm ((s.subdirectories p.bytes).map baseBytes)

namespace Catalogued
variable (h : s.Catalogued)
include h

theorem mem_subdirectories {a : Nat} {q : Bytes} (hq : s.heapPaths[a]? = some q) :
    q ∈ s.subdirectories (parentBytes q) := by
  have hmem := List.mem_of_getElem? hq
  have hnodup := h.copies.nodup_iff.mp h.wellFormed.dirPaths_nodup
  have hroot : q ≠ AbsPath.root.bytes := fun he => (List.nodup_cons.mp hnodup).1 (he ▸ hmem)
  refine List.mem_filter.mpr ⟨h.copies.mem_iff.mpr (List.mem_cons_of_mem _ hmem), ?_⟩
  simpa using hroot

/-- The directories an entry links are distinct. -/
theorem nodup_linked {e : Bytes × List Nat} (he : e ∈ s.entries) : (e.2.map (s.heapPaths[·]?)).Nodup := by
  obtain ⟨hnodup, hlinks⟩ := h.links e he
  apply hnodup.map_on
  intro a hmem b _ hab
  obtain ⟨q, hq, _⟩ := hlinks a hmem
  exact (List.getElem?_inj (List.getElem?_eq_some_iff.mp hq).1 h.heapPaths_nodup).mp hab

/-- The entry that links a directory is the one of its parent, as no two entries have one path. -/
theorem linked_by_parent (ha : s.AllLinked) {e : Bytes × List Nat} (he : e ∈ s.entries) {q : Bytes}
    (hq : q ∈ s.subdirectories e.1) : ∃ a ∈ e.2, s.heapPaths[a]? = some q := by
  simp only [subdirectories, List.mem_filter, decide_eq_true_eq] at hq
  obtain ⟨hdir, hroot, hparent⟩ := hq
  have hheap : q ∈ s.heapPaths := (List.mem_cons.mp (h.copies.mem_iff.mp hdir)).resolve_left hroot
  obtain ⟨a, hq⟩ := List.mem_iff_getElem?.mp hheap
  have hlt := (List.getElem?_eq_some_iff.mp hq).1
  rw [heapPaths, List.length_map] at hlt
  obtain ⟨e', he', hmem⟩ := ha a hlt
  obtain ⟨q', hq', hparent'⟩ := (h.links e' he').2 a hmem
  obtain rfl : q = q' := Option.some.inj (hq.symm.trans hq')
  have hfst : (s.entries.map Prod.fst).Nodup := by
    rw [map_fst_entries]
    exact h.wellFormed.dirPaths_nodup
  obtain rfl : e' = e := List.inj_on_of_nodup_map hfst he' he (hparent'.symm.trans hparent)
  exact ⟨a, hmem, hq⟩

theorem perm_of_allLinked (ha : s.AllLinked) {d : SimpleDirectory} (hd : d ∈ s.theDirectories.elems) :
    (d.containedDirectories.map (s.heapPaths[·]?)).Perm
      ((s.subdirectories d.directoryFile.path).map some) := by
  have hentry : d.entry ∈ s.entries := List.mem_map_of_mem hd
  have hsub : ((s.subdirectories d.directoryFile.path).map some).Nodup :=
    (h.wellFormed.dirPaths_nodup.filter _).map fun _ _ => Option.some.inj
  apply (List.perm_ext_iff_of_nodup (h.nodup_linked hentry) hsub).mpr
  intro x
  simp only [List.mem_map]
  constructor
  · rintro ⟨a, hmem, rfl⟩
    obtain ⟨q, hq, hparent⟩ := (h.links _ hentry).2 a hmem
    have hmem := h.mem_subdirectories hq
    rw [hparent] at hmem
    exact ⟨q, hmem, hq.symm⟩
  · rintro ⟨q, hq, rfl⟩
    exact h.linked_by_parent ha hentry hq

theorem directoryNames_perm (ha : s.AllLinked) {d : SimpleDirectory} (hd : d ∈ s.theDirectories.elems) :
    (s.directoryNames d).Perm ((s.subdirectories d.directoryFile.path).map baseBytes) := by
  have hname : ∀ a : Nat,
      (s.heap[a]?.map fun x => cStr x.directoryFile.name) = s.heapPaths[a]?.map baseBytes := by
    intro a
    rw [heapPaths, List.getElem?_map, Option.map_map]
    cases hx : s.heap[a]? with
    | none => rfl
    | some x =>
      have hmem := List.mem_of_getElem? hx
      have hpath : x.directoryFile.path ∈ s.dirPaths :=
        h.copies.mem_iff.mpr (List.mem_cons_of_mem _ (List.mem_map_of_mem hmem))
      have hfree : 0 ∉ baseBytes x.directoryFile.path := fun hm =>
        h.wellFormed.nul_free (List.mem_append_right _ hpath) (List.mem_of_mem_drop hm)
      simp only [Option.map_some, Function.comp_apply, h.heap_names x hmem, cStr_of_nul_free hfree]
  have hperm := (h.perm_of_allLinked ha hd).filterMap (Option.map baseBytes)
  rw [List.filterMap_map, List.filterMap_map] at hperm
  rw [directoryNames, List.filterMap_congr fun a _ => hname a]
  apply hperm.trans
  apply List.Perm.of_eq
  exact congrFun List.filterMap_eq_map _

theorem listsSubdirectories_iff : s.ListsSubdirectories ↔ s.AllLinked := by
  constructor
  · rintro ⟨hall, -⟩ a ha
    obtain ⟨q, hq⟩ : ∃ q, s.heapPaths[a]? = some q :=
      ⟨_, List.getElem?_eq_getElem (by rwa [heapPaths, List.length_map])⟩
    have hsub := h.mem_subdirectories hq
    obtain ⟨p, rfl⟩ := h.wellFormed.normalised q (List.mem_append_right _ (List.mem_of_mem_filter hsub))
    have hparent := h.wellFormed.closed p (List.mem_append_right _ (List.mem_of_mem_filter hsub))
    rw [dirPaths, dirRecords, List.map_map] at hparent
    obtain ⟨d, hd, hpath⟩ := List.mem_map.mp hparent
    have hsome : some p.bytes ∈ (s.subdirectories d.directoryFile.path).map some := by
      rw [show d.directoryFile.path = parentBytes p.bytes from hpath]
      exact List.mem_map_of_mem hsub
    obtain ⟨b, hb, hqb⟩ := List.mem_map.mp ((hall d hd).mem_iff.mpr hsome)
    have hlt := (List.getElem?_eq_some_iff.mp hq).1
    obtain rfl : a = b := (List.getElem?_inj hlt h.heapPaths_nodup).mp (hq.trans hqb.symm)
    exact ⟨d.entry, List.mem_map_of_mem hd, hb⟩
  · intro ha
    refine ⟨fun d hd => h.perm_of_allLinked ha hd, fun p hp => ?_⟩
    obtain ⟨d, hd, hpath, hlist⟩ := h.run_listFilesInDir hp
    refine ⟨s.directoryNames d, by simp only [Method.answer, hlist], ?_⟩
    rw [← hpath]
    exact h.directoryNames_perm ha hd

/-- A new directory is linked exactly when the vector had room for it. -/
theorem allLinked_addDirectory {p : AbsPath} {i : Nat} (hi : s.dirIndex p.parent.bytes = some i) :
    (s.addDirectory ctx p i).AllLinked ↔ s.AllLinked ∧ s.Room := by
  have hlen : (s.addDirectory ctx p i).heap.length = s.heap.length + 1 := by simp [FilesystemData.addDirectory]
  constructor
  · intro ha
    refine ⟨fun a hlt => ?_, ?_⟩
    · obtain ⟨e, he, hmem⟩ := ha a (by omega)
      rcases mem_entries_addDirectory h.wellFormed hi he with he | rfl | ⟨c, hc, rfl⟩
      · exact ⟨e, he, hmem⟩
      · exact absurd hmem List.not_mem_nil
      · refine ⟨_, hc, (List.mem_append.mp hmem).resolve_right fun hn => ?_⟩
        exact absurd (List.mem_singleton.mp hn) (Nat.ne_of_lt hlt)
    · by_contra hr
      obtain ⟨e, he, hmem⟩ := ha s.heap.length (by omega)
      rw [entries_addDirectory_of_full hr, List.mem_append, List.mem_singleton] at he
      rcases he with he | rfl
      · exact Nat.lt_irrefl _ (h.lt_of_mem he hmem)
      · exact absurd hmem List.not_mem_nil
  · rintro ⟨ha, hr⟩ a hlt
    obtain ⟨front, c, back, h₁, h₂⟩ := entries_addDirectory_of_room ctx h.wellFormed hi hr
    rw [h₂]
    rcases Nat.lt_succ_iff_lt_or_eq.mp (hlen ▸ hlt) with hlt | rfl
    · obtain ⟨e, he, hmem⟩ := ha a hlt
      rw [h₁] at he
      simp only [List.mem_append, List.mem_cons] at he
      rcases he with he | rfl | he
      · exact ⟨e, by simp [he], hmem⟩
      · exact ⟨(p.parent.bytes, c ++ [s.heap.length]), by simp, List.mem_append_left _ hmem⟩
      · exact ⟨e, by simp [he], hmem⟩
    · exact ⟨(p.parent.bytes, c ++ [s.heap.length]), by simp, by simp⟩

end Catalogued

/-- A call that makes a directory finds room for it in the vector of directories. -/
def FindsRoom (s : FilesystemData) (c : Call) : Prop := ∀ p mode, c.operation = .mkdir p mode → s.Room

theorem allLinked_step (h : s.Catalogued) {op : Operation} (ht : Transition ctx s op s') :
    s'.AllLinked ↔ s.AllLinked ∧ s.FindsRoom ⟨ctx, op⟩ := by
  have hsame : s'.entries = s.entries → s'.heap = s.heap → (∀ p mode, op ≠ .mkdir p mode) →
      (s'.AllLinked ↔ s.AllLinked ∧ s.FindsRoom ⟨ctx, op⟩) := by
    intro he hh hop
    rw [AllLinked, he, hh]
    exact ⟨fun ha => ⟨ha, fun p mode hm => absurd hm (hop p mode)⟩, And.left⟩
  cases ht with
  | create => exact hsame (entries_addFile _ _ _) rfl (by simp)
  | @mkdir p mode i fresh parent =>
    rw [h.allLinked_addDirectory parent]
    exact and_congr_right fun _ => ⟨fun hr _ _ _ => hr, fun hr => hr p mode rfl⟩
  | unlink => exact hsame (entries_dropFile _).1 (entries_dropFile _).2 (by simp)
  | rename => exact hsame (entries_dropFile _).1 (entries_dropFile _).2 (by simp)
  | edit assigns =>
    apply hsame rfl rfl
    intro p mode he
    rw [he] at assigns
    cases assigns

/-- After a guarded run every directory is linked exactly when it was so before and every new directory
found room. -/
theorem allLinked_exec {calls : List Call} (h : s.Catalogued) (hg : ramSystem.Along ramSystem.guard calls s) :
    ∃ s', ramSystem.exec calls s = some s' ∧ s'.Catalogued ∧
      (s'.AllLinked ↔ s.AllLinked ∧ ramSystem.Along FindsRoom calls s) := by
  induction calls generalizing s with
  | nil => exact ⟨s, rfl, h, by simp [GuardedSystem.Along]⟩
  | cons c calls ih =>
    obtain ⟨code, m, hr, ht⟩ := h.wellFormed.perform_guarded hg.1
    have hm := ramSystem_step hr
    obtain ⟨s', he, hc, hiff⟩ := ih (h.step ht) (hg.2 m hm)
    refine ⟨s', GuardedSystem.exec_cons.mpr ⟨m, hm, he⟩, hc, ?_⟩
    have hrest : ramSystem.Along FindsRoom (c :: calls) s ↔
        s.FindsRoom c ∧ ramSystem.Along FindsRoom calls m := by
      simp only [GuardedSystem.Along, hm, Option.some.injEq, forall_eq']
    rw [hiff, allLinked_step h ht, hrest, and_assoc]

theorem allLinked_init (ctx : CallContext) : (init ctx).AllLinked := by
  intro a ha
  obtain rfl : a = 0 := Nat.lt_one_iff.mp ha
  refine ⟨(text "/", [0]), ?_, List.mem_singleton_self 0⟩
  simp [entries, SimpleDirectory.entry, init]

end FilesystemData

/-- A guarded run from the constructor's state leaves every subdirectory in the entry and the listing of its
parent exactly when every `mkdir` of the run found room in the vector of directories. -/
theorem lists_subdirectories_iff (ctx : CallContext) {calls : List Call}
    (hg : ramSystem.Along ramSystem.guard calls (init ctx)) :
    ∃ s, ramSystem.exec calls (init ctx) = some s ∧
      (s.ListsSubdirectories ↔ ramSystem.Along FindsRoom calls (init ctx)) := by
  obtain ⟨s, he, hc, hiff⟩ := allLinked_exec (catalogued_init ctx) hg
  exact ⟨s, he, by rw [hc.listsSubdirectories_iff, hiff, and_iff_right (allLinked_init ctx)]⟩

private theorem guarded_mkdir_notes :
    ramSystem.Along ramSystem.guard [⟨.plain, .mkdir notes 0o755⟩] (init .plain) :=
  ⟨guard_create_notes, fun _ _ => trivial⟩

theorem lists_subdirectories_iff_mkdir :
    ∃ s, ramSystem.exec [⟨.plain, .mkdir notes 0o755⟩] (init .plain) = some s ∧
      (s.ListsSubdirectories ↔ ramSystem.Along FindsRoom [⟨.plain, .mkdir notes 0o755⟩] (init .plain)) :=
  lists_subdirectories_iff .plain guarded_mkdir_notes

/-- The first `mkdir` after the constructor, when the vector has room for its two directories only,
makes a directory that the listing of the root does not show. -/
theorem mkdir_lost_by_growth :
    ramSystem.Along ramSystem.guard [⟨.plain, .mkdir notes 0o755⟩] (init .plain) ∧
      ∃ s, ramSystem.exec [⟨.plain, .mkdir notes 0o755⟩] (init .plain) = some s ∧ DirectoryAt s notes ∧
        (listFilesInDir AbsPath.root.toCString).answer s = .ok [text "mg_dir_1", text "mg_file_1"] ∧
        ¬ s.ListsSubdirectories := by
  refine ⟨guarded_mkdir_notes, _, rfl, rfl, rfl, fun h => ?_⟩
  have hlen := (h.1 _ (List.mem_of_getElem? (show _[1]? = some _ from rfl))).length_eq
  exact absurd hlen (by decide)

end MGFileSystem
