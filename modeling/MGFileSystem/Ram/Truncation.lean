import MGFileSystem.Ram.PositionalWrite
import MGFileSystem.Ram.OneFile

/-! What `mg_truncate` does to the length. `truncate_file` takes a `substr`, which cuts but never
pads, so a length promised beyond the end is not there when a later write relies on it. -/
namespace MGFileSystem
open FilesystemData

/-- The content is cut or padded with zeros to the length, and `mg_getattr` reports that length. -/
structure TruncatedTo (c : Bytes) (n : Nat) (p : AbsPath) (s : FilesystemData) : Prop where
  content : s.contentAt p = some (Overlay.fit 0 n c)
  size : ∀ ctx st, ∃ st', (mgGetattr (filesystemData ctx) ctx p.toCString st).answer s = .ok (0, st') ∧ st'.size = n

/-- A file that was cut to `n` bytes has that length exactly if it had at least as many before. -/
theorem truncatedTo_iff {c : Bytes} {n : Nat} {p : AbsPath} {o : Object} {s : FilesystemData} (h : HoldsFile p o s)
    (hc : o.content = c.take n) : TruncatedTo c n p s ↔ n ≤ c.length := by
  constructor
  · intro ht
    obtain ⟨st', hg, hsize⟩ := ht.size .plain ⟨0, 0, 0, 0, 0, 0, 0⟩
    rw [h.answer_mgGetattr] at hg
    obtain ⟨-, rfl⟩ := Prod.mk.inj (Except.ok.inj hg)
    have hlen : o.content.length = n := hsize
    rw [hc, List.length_take] at hlen
    omega
  · intro hn
    constructor
    · rw [h.contentAt, hc, Overlay.fit_of_le 0 hn]
    · intro ctx st
      have hlen : o.content.length = n := by rw [hc, List.length_take, Nat.min_eq_left hn]
      exact ⟨o.stat, h.answer_mgGetattr ctx st, hlen⟩

/-- `mg_truncate` sets the length exactly when the file is at least that long already, and an empty file that
is truncated to a length and then filled has that length exactly when the data reach up to it. -/
theorem mgTruncate_sets_length_iff {s : FilesystemData} (h : ramSystem.Reachable s) {p : AbsPath} (hf : FileAt s p)
    {c : Bytes} (hc : s.contentAt p = some c) (ctx : CallContext) (n : Nat) :
    ∃ s', (mgTruncate (filesystemData ctx) p.toCString n).run s = .ok 0 s' ∧
      (TruncatedTo c n p s' ↔ n ≤ c.length) ∧
      (c = [] → ∀ ctx' (d : Bytes) tail offset, 0 ∉ d → offset + d.length ≤ n →
        ∃ s'' c'', (mgWrite (filesystemData ctx') p.toCString (d ++ tail) d.length offset).run s' =
            .ok (toCInt d.length) s'' ∧
          s''.contentAt p = some c'' ∧ (c''.length = n ↔ offset + d.length = n)) := by
  obtain ⟨s', hr, hw', hf', hc'⟩ := (wellFormed_of_reachable h).run_editContent hf hc (List.take n)
  obtain ⟨o, hfile⟩ := hw'.holdsFile hf'
  have hcut : o.content = c.take n := Option.some.inj (hfile.contentAt.symm.trans hc')
  refine ⟨s', ?_, truncatedTo_iff hfile hcut, ?_⟩
  · simp only [mgTruncate, filesystemData, truncateFile, EStateM.run_bind, hr]
    rfl
  · rintro rfl ctx' d tail offset hd -
    rw [List.take_nil] at hc'
    obtain ⟨s'', hr'', _, _, hc''⟩ := hw'.run_writeFileContent hf' hc' hd tail offset
    refine ⟨s'', _, ?_, hc'', ?_⟩
    · simp only [mgWrite, filesystemData, EStateM.run_bind, hr'']
      rfl
    · rw [Overlay.length_insert, List.length_nil, Nat.zero_max]

/-- The 19 bytes can be cut to 4. An empty file does not grow to 4, but four bytes written to it make that length. -/
theorem mgTruncate_sets_length_iff_init :
    (∃ s', (mgTruncate (filesystemData .plain) mgFile1.toCString 4).run (init .plain) = .ok 0 s' ∧
      TruncatedTo (text "this is the content") 4 mgFile1 s') ∧
    ∃ s' s'' c'', (mgTruncate (filesystemData .plain) notes.toCString 4).run withNotes = .ok 0 s' ∧
      ¬ TruncatedTo [] 4 notes s' ∧
      (mgWrite (filesystemData .plain) notes.toCString (text "abcd" ++ [1]) 4 0).run s' = .ok 4 s'' ∧
      s''.contentAt notes = some c'' ∧ c''.length = 4 := by
  have hf : FileAt (init .plain) mgFile1 := rfl
  have hc : (init .plain).contentAt mgFile1 = some (text "this is the content") := rfl
  have hnotes : FileAt withNotes notes := rfl
  have hempty : withNotes.contentAt notes = some [] := rfl
  obtain ⟨s₁, hcut, hiff, -⟩ := mgTruncate_sets_length_iff (.start ⟨.plain, rfl⟩) hf hc .plain 4
  obtain ⟨s', hr, hiff', hfill⟩ := mgTruncate_sets_length_iff reachable_withNotes hnotes hempty .plain 4
  obtain ⟨s'', c'', hr'', hc'', hlength⟩ := hfill rfl .plain (text "abcd") [1] 0 (by decide) (by decide)
  have hfour : (text "abcd").length = 4 := rfl
  have hcode : toCInt 4 = 4 := by decide
  rw [hfour, hcode] at hr''
  exact ⟨⟨s₁, hcut, hiff.mpr (by decide)⟩, s', s'', c'', hr, mt hiff'.mp (by decide), hr'', hc'', hlength.mpr rfl⟩

/-- A file of 19 bytes that is truncated to 20 keeps its 19 bytes. -/
theorem mgTruncate_does_not_grow :
    ramSystem.Reachable (init .plain) ∧ FileAt (init .plain) mgFile1 ∧
      ∃ s', (mgTruncate (filesystemData .plain) mgFile1.toCString 20).run (init .plain) = .ok 0 s' ∧
        s'.contentAt mgFile1 = some (text "this is the content") ∧
        ¬ TruncatedTo (text "this is the content") 20 mgFile1 s' := by
  refine ⟨.start ⟨.plain, rfl⟩, rfl, _, rfl, rfl, fun h => ?_⟩
  have hcontent := h.content
  exact absurd hcontent (by decide)

end MGFileSystem
