import MGFileSystem.Ram.Refinement

/-! Positional writing through `mg_write`. The backend inserts where a positional write
overwrites, so the two agree only where nothing lies at or after the offset. -/
namespace MGFileSystem
open FilesystemData

/-- What a positional write of `d` at `offset` makes of the content `old`. -/
structure PositionalWrite (old d : Bytes) (offset : Nat) (new : Bytes) : Prop where
  content : new = Overlay.fit 0 offset old ++ d ++ old.drop (offset + d.length)
  length : new.length = max old.length (offset + d.length)
  window : ∀ i < d.length, new[offset + i]? = d[i]?
  outside : ∀ i < old.length, i < offset ∨ offset + d.length ≤ i → new[i]? = old[i]?

theorem positionalWrite_iff {c d c' : Bytes} {offset : Nat} :
    PositionalWrite c d offset c' ↔ c' = Overlay.overwrite 0 c offset d := by
  refine ⟨PositionalWrite.content, ?_⟩
  rintro rfl
  refine ⟨rfl, Overlay.length_overwrite 0 c offset d, fun i hi => Overlay.getElem?_overwrite_window 0 c d hi,
    fun i hi ho => ?_⟩
  rcases ho with ho | ho
  · exact Overlay.getElem?_overwrite_before 0 c d ho hi
  · exact Overlay.getElem?_overwrite_after 0 c d ho

/-- A buffer that starts with text of the given size delivers that text. -/
theorem writtenContent_text {d : Bytes} (hd : 0 ∉ d) (c : Bytes) (tail : Memory) (offset : Nat) :
    writtenContent c (d ++ tail) d.length offset = Overlay.insert 0 c offset d := by
  rw [writtenContent_eq_insert, take_cStr_append, cStr_of_nul_free hd]

namespace FilesystemData
variable {s : FilesystemData} {p : AbsPath} {c : Bytes}

/-- An edit of the content leaves the edited content at the path. -/
theorem WellFormed.run_editContent (h : s.WellFormed) (hf : FileAt s p) (hc : s.contentAt p = some c)
    (k : Bytes → Bytes) :
    ∃ s', (assignFile p.toCString fun f => { f with content := k f.content }).run s = .ok () s' ∧
      s'.WellFormed ∧ FileAt s' p ∧ s'.contentAt p = some (k c) := by
  obtain ⟨i, hi⟩ := hf.exists_slot
  obtain ⟨o, ho, rfl⟩ := Option.map_eq_some_iff.mp hc
  have hw : (s.assign i fun f => { f with content := k f.content }).WellFormed := h.assign (fun _ => by rfl) i
  have hobj : (s.assign i fun f => { f with content := k f.content }).objects =
      Function.update s.objects p ((s.objects p).map fun o => { o with content := k o.content }) :=
    h.objects_assign hi (fun _ => by rfl) fun _ => by rfl
  have hkind : o.isDirectory = false := by simpa [kindOf, ho] using h.fileAt_iff_kind.mp hf
  refine ⟨_, run_assignFile hi _, hw, ?_, ?_⟩
  · rw [hw.fileAt_iff_kind, kindOf, hobj, Function.update_self, ho, Option.map_some, Option.map_some, hkind]
  · rw [contentAt, hobj, Function.update_self, ho]
    rfl

theorem WellFormed.run_writeFileContent (h : s.WellFormed) (hf : FileAt s p) (hc : s.contentAt p = some c)
    {d : Bytes} (hd : 0 ∉ d) (tail : Memory) (offset : Nat) :
    ∃ s', (writeFileContent p.toCString (d ++ tail) d.length offset).run s = .ok () s' ∧
      s'.WellFormed ∧ FileAt s' p ∧ s'.contentAt p = some (Overlay.insert 0 c offset d) := by
  obtain ⟨s', hr, hw, hf', hc'⟩ :=
    h.run_editContent hf hc fun content => writtenContent content (d ++ tail) d.length offset
  exact ⟨s', hr, hw, hf', by rw [hc', writtenContent_text hd]⟩

end FilesystemData

/-- `mg_write` is a positional write exactly at or past the end, or of nothing. -/
theorem mgWrite_positional_iff {s : FilesystemData} (h : ramSystem.Reachable s) {p : AbsPath} (hf : FileAt s p)
    {c : Bytes} (hc : s.contentAt p = some c) {d : Bytes} (hd : 0 ∉ d) (ctx : CallContext) (tail : Memory)
    (offset : Nat) :
    ∃ s' c', (mgWrite (filesystemData ctx) p.toCString (d ++ tail) d.length offset).run s =
        .ok (toCInt d.length) s' ∧
      s'.contentAt p = some c' ∧ (PositionalWrite c d offset c' ↔ c.length ≤ offset ∨ d = []) := by
  obtain ⟨s', hr, _, _, hc'⟩ := (wellFormed_of_reachable h).run_writeFileContent hf hc hd tail offset
  refine ⟨s', _, ?_, hc', by rw [positionalWrite_iff, Overlay.insert_eq_overwrite_iff]⟩
  simp only [mgWrite, filesystemData, EStateM.run_bind, hr]
  rfl

theorem mgWrite_positional_iff_init :
    ∃ s' c', (mgWrite (filesystemData .plain) mgFile1.toCString (text "X" ++ []) 1 19).run (init .plain) =
        .ok (toCInt 1) s' ∧
      s'.contentAt mgFile1 = some c' ∧
      (PositionalWrite (text "this is the content") (text "X") 19 c' ↔
        (text "this is the content").length ≤ 19 ∨ text "X" = []) :=
  have hf : FileAt (init .plain) mgFile1 := rfl
  mgWrite_positional_iff (.start ⟨.plain, rfl⟩) hf rfl (by decide) .plain [] 19

/-- Writing one byte at the start of the constructor's file moves its text instead of overwriting it. -/
theorem mgWrite_moves_content :
    ramSystem.Reachable (init .plain) ∧ FileAt (init .plain) mgFile1 ∧
      (init .plain).contentAt mgFile1 = some (text "this is the content") ∧
      ∃ s', (mgWrite (filesystemData .plain) mgFile1.toCString (text "X") 1 0).run (init .plain) = .ok 1 s' ∧
        s'.contentAt mgFile1 = some (text "Xthis is the content") ∧
        ¬ PositionalWrite (text "this is the content") (text "X") 0 (text "Xthis is the content") :=
  ⟨.start ⟨.plain, rfl⟩, rfl, rfl, _, rfl, rfl, fun h => absurd h.length (by decide)⟩

end MGFileSystem
