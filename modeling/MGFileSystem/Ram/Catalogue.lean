import MGFileSystem.Ram.Refinement

/-! What the records keep beside the paths: the stored names, and the addresses under which
directories list their subdirectories. -/
namespace MGFileSystem

/-- A directory's path with the addresses it contains. -/
def SimpleDirectory.entry (d : SimpleDirectory) : Bytes × List Nat :=
  (d.directoryFile.path, d.containedDirectories)

theorem SimpleDirectory.entry_linkFile (p : ElementPtr) (d : SimpleDirectory) :
    (d.linkFile p).entry = d.entry := rfl

namespace FilesystemData
open SimpleDirectory
variable {s : FilesystemData} {ctx : CallContext}

def entries (s : FilesystemData) : List (Bytes × List Nat) := s.theDirectories.elems.map entry

def heapPaths (s : FilesystemData) : List Bytes := s.heap.map (·.directoryFile.path)

theorem map_fst_entries (s : FilesystemData) : s.entries.map Prod.fst = s.dirPaths := by
  rw [entries, dirPaths, dirRecords, List.map_map, List.map_map]
  rfl

/-- The names and addresses agree with the stored paths. -/
structure Catalogued (s : FilesystemData) : Prop where
  wellFormed : s.WellFormed
  copies : s.dirPaths.Perm (AbsPath.root.bytes :: s.heapPaths)
  heap_names : ∀ x ∈ s.heap, x.directoryFile.name = baseBytes x.directoryFile.path
  file_names : ∀ f ∈ s.theFiles.elems, f.name = baseBytes f.path ∨ f.name = f.path.drop 1
  links : ∀ e ∈ s.entries, e.2.Nodup ∧ ∀ a ∈ e.2, ∃ b, s.heapPaths[a]? = some b ∧ parentBytes b = e.1

/-- There is storage for one more directory. -/
def Room (s : FilesystemData) : Prop := s.theDirectories.elems.length < s.theDirectories.capacity

instance (s : FilesystemData) : Decidable s.Room := inferInstanceAs (Decidable (_ < _))

theorem entries_addFile (p : AbsPath) (mode : UInt32) (i : Nat) :
    (s.addFile ctx p mode i).entries = s.entries :=
  StdVector.map_modify (entry_linkFile _) _ _

theorem entries_dropFile (b : Bytes) : (s.dropFile b).entries = s.entries ∧ (s.dropFile b).heap = s.heap := by
  unfold dropFile
  split <;> exact ⟨rfl, rfl⟩

/-- With room the pointer to the parent is still valid. -/
theorem elems_addDirectory_of_room (ctx : CallContext) (p : AbsPath) (i : Nat) (hr : s.Room) :
    (s.addDirectory ctx p i).theDirectories.elems =
      (s.theDirectories.elems ++ [newDirectory ctx p.toCString (some (s.theDirectories.ptr i))]).modify i
        (linkDirectory s.heap.length) := by
  have hst : (s.theDirectories.ptr i).storage = (s.theDirectories.pushBack ctx.growth
      (newDirectory ctx p.toCString (some (s.theDirectories.ptr i)))).storage :=
    (StdVector.storage_pushBack_of_lt hr).symm
  rw [addDirectory, StdVector.modifyAt_of_eq hst, StdVector.elems_modify, StdVector.elems_pushBack]
  rfl

/-- With room the new address reaches the parent's entry. -/
theorem entries_addDirectory_of_room (ctx : CallContext) (h : s.WellFormed) {p : AbsPath} {i : Nat}
    (hi : s.dirIndex p.parent.bytes = some i) (hr : s.Room) :
    ∃ front c back, s.entries = front ++ (p.parent.bytes, c) :: back ∧
      (s.addDirectory ctx p i).entries =
        front ++ (p.parent.bytes, c ++ [s.heap.length]) :: (back ++ [(p.bytes, [])]) := by
  obtain ⟨front, d, back, he, rfl, hk, _⟩ := KeyedList.position_split hi
  have hd : d.directoryFile.path = p.parent.bytes := by
    rw [← hk]
    exact (h.record_key (List.mem_map_of_mem (by rw [he]; simp))).symm
  refine ⟨front.map entry, d.containedDirectories, back.map entry, ?_, ?_⟩
  · rw [entries, he, List.map_append, List.map_cons, entry, hd]
  · rw [entries, elems_addDirectory_of_room ctx p _ hr, he, List.append_assoc, List.cons_append,
      List.modify_eq_take_cons_drop (by simp)]
    simp [linkDirectory, entry, hd, newDirectory]

/-- Without room the parent was moved, and its entry stays as it was. -/
theorem entries_addDirectory_of_full {p : AbsPath} {i : Nat} (hr : ¬ s.Room) :
    (s.addDirectory ctx p i).entries = s.entries ++ [(p.bytes, [])] := by
  have hst : (s.theDirectories.ptr i).storage ≠ (s.theDirectories.pushBack ctx.growth
      (newDirectory ctx p.toCString (some (s.theDirectories.ptr i)))).storage := by
    rw [StdVector.storage_pushBack_of_full hr]
    exact Nat.ne_of_lt (Nat.lt_succ_self _)
  rw [entries, addDirectory, StdVector.modifyAt_of_ne hst, StdVector.elems_pushBack, List.map_append]
  rfl

theorem heapPaths_addDirectory (p : AbsPath) (i : Nat) :
    (s.addDirectory ctx p i).heapPaths = s.heapPaths ++ [p.bytes] := by
  rw [heapPaths, addDirectory, List.map_append]
  rfl

theorem mem_entries_addDirectory (h : s.WellFormed) {p : AbsPath} {i : Nat}
    (hi : s.dirIndex p.parent.bytes = some i) {e : Bytes × List Nat}
    (he : e ∈ (s.addDirectory ctx p i).entries) :
    e ∈ s.entries ∨ e = (p.bytes, []) ∨
      ∃ c, (p.parent.bytes, c) ∈ s.entries ∧ e = (p.parent.bytes, c ++ [s.heap.length]) := by
  by_cases hr : s.Room
  · obtain ⟨front, c, back, h₁, h₂⟩ := entries_addDirectory_of_room ctx h hi hr
    rw [h₂] at he
    rw [h₁]
    simp only [List.mem_append, List.mem_cons, List.not_mem_nil, or_false] at he ⊢
    rcases he with he | he | he | he
    · exact .inl (.inl he)
    · exact .inr (.inr ⟨c, .inr (.inl rfl), he⟩)
    · exact .inl (.inr (.inr he))
    · exact .inr (.inl he)
  · rw [entries_addDirectory_of_full hr, List.mem_append, List.mem_singleton] at he
    exact he.imp_right .inl

namespace Catalogued
variable (h : s.Catalogued)
include h

theorem lt_of_mem {e : Bytes × List Nat} (he : e ∈ s.entries) {a : Nat} (ha : a ∈ e.2) : a < s.heap.length := by
  obtain ⟨b, hb, _⟩ := (h.links e he).2 a ha
  have := (List.getElem?_eq_some_iff.mp hb).1
  rwa [heapPaths, List.length_map] at this

theorem heapPaths_nodup : s.heapPaths.Nodup :=
  (List.nodup_cons.mp (h.copies.nodup_iff.mp h.wellFormed.dirPaths_nodup)).2

theorem addDirectory {p : AbsPath} (hp : p.bytes ∉ s.filePaths ++ s.dirPaths) {i : Nat}
    (hi : s.dirIndex p.parent.bytes = some i) : (s.addDirectory ctx p i).Catalogued where
  wellFormed := h.wellFormed.addDirectory hp (h.wellFormed.dirIndex_isSome.mp (by rw [hi]; rfl)) i
  copies := by
    rw [heapPaths_addDirectory, dirPaths, dirRecords_addDirectory, List.map_append, ← List.cons_append]
    exact h.copies.append_right _
  heap_names x hx := by
    rcases List.mem_append.mp hx with hx | hx
    · exact h.heap_names x hx
    · obtain rfl := List.mem_singleton.mp hx
      rfl
  file_names := h.file_names
  links e he := by
    have hold : ∀ {a : Nat} {b : Bytes}, s.heapPaths[a]? = some b →
        (s.addDirectory ctx p i).heapPaths[a]? = some b := by
      intro a b hb
      rw [heapPaths_addDirectory, List.getElem?_append_left (List.getElem?_eq_some_iff.mp hb).1, hb]
    rcases mem_entries_addDirectory h.wellFormed hi he with he | rfl | ⟨c, hc, rfl⟩
    · exact (h.links e he).imp_right fun hl a ha =>
        (hl a ha).imp fun b hb => hb.imp_left hold
    · exact ⟨List.nodup_nil, fun a ha => absurd ha List.not_mem_nil⟩
    · have hnew : s.heap.length ∉ c := fun hm => Nat.lt_irrefl _ (h.lt_of_mem hc hm)
      refine ⟨(h.links _ hc).1.append (List.nodup_singleton _) (by simpa using hnew), fun a ha => ?_⟩
      rcases List.mem_append.mp ha with ha | ha
      · exact ((h.links _ hc).2 a ha).imp fun b hb => hb.imp_left hold
      · obtain rfl := List.mem_singleton.mp ha
        refine ⟨p.bytes, ?_, rfl⟩
        rw [heapPaths_addDirectory, List.getElem?_append_right (by simp [heapPaths])]
        simp [heapPaths]

/-- Steps that touch neither directories nor the heap only have to keep the names of the files. -/
theorem of_same_entries {s' : FilesystemData} (hw : s'.WellFormed) (he : s'.entries = s.entries)
    (hh : s'.heap = s.heap)
    (hn : ∀ f ∈ s'.theFiles.elems, f.name = baseBytes f.path ∨ f.name = f.path.drop 1) : s'.Catalogued where
  wellFormed := hw
  copies := by
    rw [heapPaths, hh, ← map_fst_entries, he, map_fst_entries]
    exact h.copies
  heap_names := hh ▸ h.heap_names
  file_names := hn
  links := by
    rw [he, heapPaths, hh]
    exact h.links

theorem dropFile (b : Bytes) : (s.dropFile b).Catalogued := by
  apply h.of_same_entries (h.wellFormed.dropFile b) (entries_dropFile b).1 (entries_dropFile b).2
  exact fun f hf => h.file_names f (mem_files_of_dropFile hf)

theorem assign {i : Nat} {f : SimpleFile → SimpleFile} (hw : (s.assign i f).WellFormed)
    (hn : ∀ a ∈ s.theFiles.elems, (f a).name = baseBytes (f a).path ∨ (f a).name = (f a).path.drop 1) :
    (s.assign i f).Catalogued := by
  apply h.of_same_entries hw rfl rfl
  intro a ha
  obtain ⟨j, hj⟩ := List.mem_iff_getElem?.mp ha
  rw [FilesystemData.assign, StdVector.elems_modify, List.getElem?_modify] at hj
  obtain ⟨b, hb, rfl⟩ := Option.map_eq_some_iff.mp hj
  split
  · exact hn b (List.mem_of_getElem? hb)
  · exact h.file_names b (List.mem_of_getElem? hb)

theorem step {s' : FilesystemData} {op : Operation} (ht : Transition ctx s op s') : s'.Catalogued := by
  have hw := ht.wellFormed h.wellFormed
  cases ht with
  | create fresh parent =>
    apply h.of_same_entries hw (entries_addFile _ _ _) rfl
    intro f hf
    rw [files_addFile] at hf
    rcases List.mem_append.mp hf with hf | hf
    · exact h.file_names f hf
    · obtain rfl := List.mem_singleton.mp hf
      exact .inl rfl
  | mkdir fresh parent => exact h.addDirectory fresh parent
  | unlink => exact h.dropFile _
  | rename => exact (h.dropFile _).assign hw fun _ _ => .inr rfl
  | edit assigns =>
    apply h.assign hw
    intro a ha
    obtain ⟨hpath, hname⟩ := Operation.edit_keeps_names assigns a
    rw [hpath, hname]
    exact h.file_names a ha

end Catalogued

theorem catalogued_init (ctx : CallContext) : (init ctx).Catalogued where
  wellFormed := wellFormed_init ctx
  copies := by
    rw [dirPaths_init]
    exact List.Perm.swap _ _ _
  heap_names x hx := by
    obtain rfl := List.mem_singleton.mp hx
    rfl
  file_names f hf := by
    obtain rfl := List.mem_singleton.mp hf
    exact .inl rfl
  links e he := by
    simp only [entries, entry, init, StdVector.elems_pushBack, StdVector.elems_empty, List.nil_append, List.map_append,
      List.map_cons, List.map_nil, List.mem_append, List.mem_singleton] at he
    rcases he with rfl | rfl
    · exact ⟨List.nodup_nil, fun a ha => absurd ha List.not_mem_nil⟩
    · refine ⟨List.nodup_singleton _, fun a ha => ?_⟩
      obtain rfl := List.mem_singleton.mp ha
      exact ⟨mgDir1.bytes, rfl, by decide⟩

end FilesystemData

open FilesystemData

theorem FilesystemData.Catalogued.step_guarded {s : FilesystemData} (h : s.Catalogued) {c : Call}
    (hg : ramSystem.guard s c) :
    ∃ s', ramSystem.step c s = some s' ∧ s'.Catalogued ∧ Transition c.ctx s c.operation s' := by
  obtain ⟨code, s', hr, ht⟩ := h.wellFormed.perform_guarded hg
  exact ⟨s', ramSystem_step hr, h.step ht, ht⟩

theorem catalogued_of_reachable {s : FilesystemData} (h : ramSystem.Reachable s) : s.Catalogued := by
  apply h.invariant
  · rintro _ ⟨ctx, rfl⟩
    exact catalogued_init ctx
  · intro s c s' hc hg hs
    obtain ⟨t, ht, hct, -⟩ := hc.step_guarded hg
    obtain rfl : t = s' := Option.some.inj (ht.symm.trans hs)
    exact hct

/-- Guarded runs of the backend succeed. -/
theorem FilesystemData.Catalogued.exec_guarded {s : FilesystemData} (h : s.Catalogued) {calls : List Call}
    (hg : ramSystem.Along ramSystem.guard calls s) : ∃ s', ramSystem.exec calls s = some s' ∧ s'.Catalogued :=
  GuardedSystem.exec_of_along (fun _ _ hc hguard => (hc.step_guarded hguard).imp fun _ h => ⟨h.1, h.2.1⟩) h hg

section GuardedRun
variable {I P : FilesystemData → Prop} {G C : FilesystemData → Call → Prop} {s : FilesystemData} {calls : List Call}

/-- A guarded run succeeds, and keeps what every transition keeps under a condition exactly when the condition holds
before each of its calls. -/
theorem guarded_run_iff (hcatalogued : ∀ s, I s → s.Catalogued)
    (hstep : ∀ s c s', I s → P s → G s c → Transition c.ctx s c.operation s' → I s' ∧ (P s' ↔ C s c))
    (hI : I s) (hP : P s) (hg : ramSystem.Along ramSystem.guard calls s) (hG : ramSystem.Along G calls s) :
    (∃ s', ramSystem.exec calls s = some s') ∧ (ramSystem.Always P calls s ↔ ramSystem.Along C calls s) := by
  refine ⟨((hcatalogued s hI).exec_guarded hg).imp fun s' h => h.1,
    GuardedSystem.always_iff_along (fun s c hIs hPs hguard => ?_) hI hP (hg.and hG)⟩
  obtain ⟨s', hs, -, ht⟩ := (hcatalogued s hIs).step_guarded hguard.1
  exact ⟨s', hs, hstep s c s' hIs hPs hguard.2 ht⟩

end GuardedRun

end MGFileSystem
