import MGFileSystem.Ram.Refinement

/-! Reading through `mg_read`. The window is not cut to the content and ends in no terminator of its own, so the length
that `strlen` reports depends on what lies around the two blocks. -/
namespace MGFileSystem
open FilesystemData

/-- What a read of `size` bytes at `offset` of the content `c` returns. -/
structure ReadLaw (c : Bytes) (offset size : Nat) (code : Int) (buffer : Bytes) : Prop where
  count : code = (min size (c.length - offset) : Nat)
  bytes : buffer.take (min size (c.length - offset)) = (c.drop offset).take (min size (c.length - offset))

/-- The same call, with other bytes in the block that `strcpy` fills, after it, and after the block returned. -/
def CallContext.over (ctx : CallContext) (freshMemory afterContent afterBuffer : Memory) : CallContext :=
  { ctx with freshMemory := freshMemory, afterContent := afterContent, afterBuffer := afterBuffer }

/-- The block `the_content` of the length of the content, when `strcpy` is done. -/
def theContent (fresh : Memory) (c : Bytes) : Memory := load (strcpy fresh c) 0 c.length

/-- The window that is returned. -/
def window (fresh afterContent : Memory) (c : Bytes) (offset size : Nat) : Memory :=
  load (theContent fresh c ++ afterContent) offset size

def ones (n : Nat) : Memory := List.replicate n 1

theorem zero_not_mem_ones (n : Nat) : 0 ∉ ones n := fun h => absurd (List.eq_of_mem_replicate h) (by decide)

/-- With ones after it, a block shows in a window where they overlap. -/
theorem load_append_ones (block : Memory) (offset size : Nat) :
    load (block ++ ones (offset + size)) offset size =
      (block.drop offset).take size ++ ones (size - (block.length - offset)) := by
  have hdrop : (block ++ ones (offset + size)).drop offset =
      block.drop offset ++ ones (offset + size - (offset - block.length)) := by
    rw [List.drop_append, ones, List.drop_replicate, ones]
  have hlen : size ≤ ((block ++ ones (offset + size)).drop offset).length := by
    simp only [List.length_drop, List.length_append, ones, List.length_replicate]
    omega
  rw [load, Overlay.fit_of_le 0 hlen, hdrop, List.take_append, List.length_drop, ones, List.take_replicate, ones]
  congr 2
  omega

/-- Whatever a block holds, the bytes around it can make the length of a window wrong. -/
theorem exists_miscount (block : Memory) (offset size : Nat) : ∃ afterContent afterBuffer,
    toCInt (strlen (load (block ++ afterContent) offset size ++ afterBuffer)) ≠
      (min size (block.length - offset) : Nat) := by
  by_cases hnul : 0 ∈ (block.drop offset).take size
  · -- A NUL of the block ends the text before the window is over.
    refine ⟨ones (offset + size), [], ?_⟩
    rw [load_append_ones, List.append_nil, strlen, cStr_append_of_mem hnul]
    have hlt := length_cStr_lt hnul
    rw [List.length_take, List.length_drop] at hlt
    have hle := toCInt_le (cStr ((block.drop offset).take size)).length
    omega
  · by_contra hall
    push Not at hall
    have hfree : 0 ∉ load (block ++ ones (offset + size)) offset size := by
      rw [load_append_ones, List.mem_append, not_or]
      exact ⟨hnul, zero_not_mem_ones _⟩
    have h₀ := hall (ones (offset + size)) []
    have h₁ := hall (ones (offset + size)) [1]
    rw [strlen, cStr_append hfree, List.length_append, length_load] at h₀ h₁
    exact toCInt_succ_ne size (h₁.trans h₀.symm)

/-- Content without a NUL fills its block; the terminator lies outside. -/
theorem theContent_of_not_mem {c : Bytes} (h : 0 ∉ c) (fresh : Memory) : theContent fresh c = c := by
  rw [theContent, strcpy, cStr_of_nul_free h, load_append_length]

/-- Content with a NUL is copied up to it, and the rest of the block stays as it was. -/
theorem theContent_of_mem {c : Bytes} (h : 0 ∈ c) (fresh : Memory) :
    theContent fresh c =
      cStr c ++ 0 :: load (fresh.drop ((cStr c).length + 1)) 0 (c.length - ((cStr c).length + 1)) := by
  have hlt := length_cStr_lt h
  have hroom : c.length - (cStr c).length = c.length - ((cStr c).length + 1) + 1 := by omega
  rw [theContent, strcpy, load_append hlt.le, hroom]
  simp only [load, List.drop_zero, Overlay.fit, List.take_succ_cons, List.length_cons, Nat.add_sub_add_right,
    List.cons_append]

/-- A window with a terminator in it holds the text up to the terminator. -/
theorem load_of_terminator {t rest : Memory} {offset size : Nat} (ho : offset ≤ t.length)
    (hs : t.length < offset + size) : ∃ rest', load (t ++ 0 :: rest) offset size = t.drop offset ++ 0 :: rest' := by
  have hlen : (t.drop offset).length ≤ size := by
    rw [List.length_drop]
    omega
  obtain ⟨k, hk⟩ : ∃ k, size - (t.drop offset).length = k + 1 :=
    ⟨size - (t.drop offset).length - 1, by rw [List.length_drop]; omega⟩
  rw [load, List.drop_append_of_le_length ho, Overlay.fit, List.take_append, List.take_of_length_le hlen, hk,
    List.take_succ_cons, List.append_assoc]
  exact ⟨_, rfl⟩

/-- A NUL of the content that lies in the window ends the text there, whatever the memory holds. -/
theorem window_of_terminator {c : Bytes} {offset size : Nat} (h : 0 ∈ c) (ho : offset ≤ (cStr c).length)
    (hs : (cStr c).length < offset + size) (fresh afterContent : Memory) :
    ∃ rest, window fresh afterContent c offset size = (cStr c).drop offset ++ 0 :: rest := by
  rw [window, theContent_of_mem h, List.append_assoc, List.cons_append]
  exact load_of_terminator ho hs

/-- Then `strlen` counts the bytes up to that NUL. -/
theorem strlen_window_of_terminator {c : Bytes} {offset size : Nat} (h : 0 ∈ c) (ho : offset ≤ (cStr c).length)
    (hs : (cStr c).length < offset + size) (fresh afterContent afterBuffer : Memory) :
    strlen (window fresh afterContent c offset size ++ afterBuffer) = (cStr c).length - offset := by
  obtain ⟨rest, hwindow⟩ := window_of_terminator h ho hs fresh afterContent
  have hfree : 0 ∉ (cStr c).drop offset := fun hm => cStr_nul_free c (List.mem_of_mem_drop hm)
  rw [hwindow, strlen, List.append_assoc, cStr_append hfree, List.length_append, List.length_drop]
  rfl

/-- Past a window without a NUL it counts on. -/
theorem strlen_window_of_free {fresh afterContent : Memory} {c : Bytes} {offset size : Nat}
    (h : 0 ∉ window fresh afterContent c offset size) (afterBuffer : Memory) :
    strlen (window fresh afterContent c offset size ++ afterBuffer) = size + strlen afterBuffer := by
  rw [strlen, cStr_append h, List.length_append, window, length_load]
  rfl

/-- Among ones the window holds no other NUL. -/
theorem terminator_of_mem_window {c : Bytes} {offset size : Nat}
    (h : 0 ∈ window (ones c.length) (ones (offset + size)) c offset size) :
    0 ∈ c ∧ offset ≤ (cStr c).length ∧ (cStr c).length < offset + size := by
  rw [window, load_append_ones, List.mem_append, or_iff_left (zero_not_mem_ones _)] at h
  by_cases hc : 0 ∈ c
  · have hlt := length_cStr_lt hc
    have hrest : load ((ones c.length).drop ((cStr c).length + 1)) 0 (c.length - ((cStr c).length + 1)) =
        ones (c.length - ((cStr c).length + 1)) := by
      rw [ones, List.drop_replicate]
      have hexact := load_append_length (ones (c.length - ((cStr c).length + 1))) []
      rwa [List.append_nil, ones, List.length_replicate] at hexact
    rw [theContent_of_mem hc, hrest] at h
    refine ⟨hc, ?_, ?_⟩
    · by_contra ho
      obtain ⟨k, hk⟩ : ∃ k, offset = (cStr c).length + (k + 1) := ⟨offset - (cStr c).length - 1, by omega⟩
      rw [hk, ← List.drop_drop, List.drop_left, List.drop_succ_cons] at h
      exact zero_not_mem_ones _ (List.mem_of_mem_drop (List.mem_of_mem_take h))
    · by_contra hs
      have hfits : size ≤ ((cStr c).drop offset).length := by
        rw [List.length_drop]
        omega
      rw [List.drop_append_of_le_length (by omega), List.take_append_of_le_length hfits] at h
      exact cStr_nul_free c (List.mem_of_mem_drop (List.mem_of_mem_take h))
  · rw [theContent_of_not_mem hc] at h
    exact absurd (List.mem_of_mem_drop (List.mem_of_mem_take h)) hc

/-- What the caller gets of the text is the same in every memory: the window up to the end of the text. -/
theorem take_window (fresh afterContent : Memory) (c : Bytes) (offset size : Nat) (rest : Bytes) :
    (window fresh afterContent c offset size ++ rest).take (min size ((cStr c).length - offset)) =
      ((cStr c).drop offset).take size := by
  have hprefix : ∃ m, theContent fresh c ++ afterContent = cStr c ++ m := by
    by_cases hc : 0 ∈ c
    · rw [theContent_of_mem hc, List.append_assoc]
      exact ⟨_, rfl⟩
    · rw [theContent_of_not_mem hc, cStr_of_nul_free hc]
      exact ⟨_, rfl⟩
  obtain ⟨m, hm⟩ := hprefix
  have hwindow : min size ((cStr c).length - offset) ≤ (load (cStr c ++ m) offset size).length := by
    rw [length_load]
    exact Nat.min_le_left _ _
  have hmemory : min size ((cStr c).length - offset) ≤ (((cStr c ++ m).drop offset).take size).length := by
    simp only [List.length_take, List.length_drop, List.length_append]
    omega
  have htext : min (min size ((cStr c).length - offset)) size ≤ ((cStr c).drop offset).length := by
    rw [List.length_drop]
    omega
  rw [window, hm, List.take_append_of_le_length hwindow, load, Overlay.fit, List.take_append_of_le_length hmemory,
    List.take_take, List.drop_append, List.take_append_of_le_length htext, Nat.min_eq_left (Nat.min_le_left _ _)]
  rcases Nat.le_total size ((cStr c).length - offset) with hle | hge
  · rw [Nat.min_eq_left hle]
  · rw [Nat.min_eq_right hge, ← List.length_drop, List.take_length, List.take_of_length_le]
    rwa [List.length_drop]

theorem FilesystemData.answer_mgRead {s : FilesystemData} {p : AbsPath} {c : Bytes} (hf : FileAt s p)
    (hc : s.contentAt p = some c) (ctx : CallContext) (buffer : Bytes) (size offset : Nat) :
    (mgRead (filesystemData ctx) p.toCString buffer size offset).answer s =
      .ok (toCInt (strlen (window ctx.freshMemory ctx.afterContent c offset size ++ ctx.afterBuffer)),
        window ctx.freshMemory ctx.afterContent c offset size ++ buffer.drop size) := by
  obtain ⟨i, hi⟩ := hf.exists_slot
  obtain ⟨f, hslot, hl⟩ := KeyedList.getElem?_position hi
  obtain rfl : f.content = c := by
    rw [contentAt, WellFormed.objects_of_file hi, hl] at hc
    exact Option.some.inj hc
  have hwin : ∀ b : Memory, b.length = size → load (b ++ ctx.afterBuffer) 0 size = b := by
    rintro b rfl
    exact load_append_length b _
  simp [Method.answer, mgRead, filesystemData, run_fileExists, hi, readFileContent, run_getIndexForFilename,
    assertFound, fileAt, hslot, hwin, window, theContent]

/-- No read of a file obeys the read law whatever lies outside the blocks that `read_file_content` allocates. -/
theorem mgRead_law_never {s : FilesystemData} {p : AbsPath} (hf : FileAt s p) {c : Bytes}
    (hc : s.contentAt p = some c) (ctx : CallContext) (buffer : Bytes) (size offset : Nat) :
    ¬ ∀ afterContent afterBuffer, ∃ code b,
        (mgRead (filesystemData (ctx.over ctx.freshMemory afterContent afterBuffer)) p.toCString buffer size
          offset).answer s = .ok (code, b) ∧
        ReadLaw c offset size code b := by
  intro h
  obtain ⟨afterContent, afterBuffer, hmiscount⟩ := exists_miscount (theContent ctx.freshMemory c) offset size
  obtain ⟨code, b, hanswer, hlaw⟩ := h afterContent afterBuffer
  rw [answer_mgRead hf hc] at hanswer
  obtain ⟨rfl, -⟩ := Prod.mk.inj (Except.ok.inj hanswer)
  have hlen : (theContent ctx.freshMemory c).length = c.length := length_load _ _ _
  rw [hlen] at hmiscount
  exact hmiscount hlaw.count

theorem mgRead_law_never_init :
    ¬ ∀ afterContent afterBuffer, ∃ code b,
        (mgRead (filesystemData (CallContext.plain.over [] afterContent afterBuffer)) mgFile1.toCString [] 4096
          0).answer (init .plain) = .ok (code, b) ∧
        ReadLaw (text "this is the content") 0 4096 code b :=
  have hf : FileAt (init .plain) mgFile1 := rfl
  mgRead_law_never hf rfl .plain [] 4096 0

/-- A read of the first four bytes reports five when the byte after its block is not a NUL. -/
theorem mgRead_overcounts :
    ramSystem.Reachable (init .plain) ∧ FileAt (init .plain) mgFile1 ∧
      (init .plain).contentAt mgFile1 = some (text "this is the content") ∧
      (mgRead (filesystemData (CallContext.plain.over [] [] [1])) mgFile1.toCString [] 4 0).answer (init .plain) =
        .ok (5, text "this") ∧
      ¬ ReadLaw (text "this is the content") 0 4 5 (text "this") :=
  have hread : (mgRead (filesystemData (CallContext.plain.over [] [] [1])) mgFile1.toCString [] 4 0).answer
      (init .plain) = .ok (toCInt 5, text "this") := rfl
  ⟨.start ⟨.plain, rfl⟩, rfl, rfl, hread, fun h => absurd h.count (by decide)⟩

/-- The constructor's file after a write past its end, which leaves a gap of two NULs. -/
def gapped : FilesystemData :=
  (mgWrite (filesystemData .plain) mgFile1.toCString (text "X") 1 21).left (init .plain)

end MGFileSystem
