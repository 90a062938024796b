import MGFileSystem.Ram.PositionalWrite
import MGFileSystem.Ram.OneFile

/-! Which bytes a write stores. The buffer becomes a C string before it is cut to the size asked for, so no
byte after it is stored, and none of its own from its first NUL on. -/
namespace MGFileSystem
open FilesystemData

/-- The content after chunks written one after the other from the offset on, each up to its first NUL. -/
def stored : Bytes → Nat → List Bytes → Bytes
  | c, _, [] => c
  | c, offset, d :: ds => stored (Overlay.insert 0 c offset (cStr d)) (offset + d.length) ds

/-- Nothing but zeros from the first zero on. -/
def PaddedText (d : Bytes) : Prop := ∀ b ∈ d.drop (cStr d).length, b = 0

/-- Every chunk but the last is text with zeros after it, which the gap before the next chunk restores, and the
last is text alone. -/
def StoredWhole : List Bytes → Prop
  | [] => True
  | [d] => 0 ∉ d
  | d :: d' :: ds => PaddedText d ∧ StoredWhole (d' :: ds)

theorem paddedText_iff (d : Bytes) : Overlay.fit 0 d.length (cStr d) = d ↔ PaddedText d := by
  obtain ⟨t, ht⟩ : cStr d <+: d := List.takeWhile_prefix _
  have hdrop : d.drop (cStr d).length = t := by
    generalize cStr d = x at ht
    rw [← ht, List.drop_left]
  have hlen : d.length - (cStr d).length = t.length := by rw [← hdrop, List.length_drop]
  have hfit : Overlay.fit 0 d.length (cStr d) = cStr d ++ List.replicate t.length 0 := by
    rw [Overlay.fit_of_ge 0 (length_cStr_le d), hlen]
  have hcancel : cStr d ++ List.replicate t.length 0 = d ↔ List.replicate t.length 0 = t :=
    ⟨fun he => List.append_cancel_left (he.trans ht.symm), fun he => by rw [he, ht]⟩
  rw [hfit, hcancel, PaddedText, hdrop, eq_comm, List.eq_replicate_iff, and_iff_right rfl]

/-- A chunk at or past the end leaves the old content, zeros up to the offset and its text. -/
theorem insert_cStr {c : Bytes} {offset : Nat} (h : c.length ≤ offset) (d : Bytes) :
    Overlay.insert 0 c offset (cStr d) = Overlay.fit 0 offset c ++ cStr d :=
  Overlay.insert_at_or_past_end 0 h _

/-- The gap before the next chunk fills up the place of the chunk. -/
theorem fit_insert_cStr {c : Bytes} {offset : Nat} (h : c.length ≤ offset) (d : Bytes) :
    Overlay.fit 0 (offset + d.length) (Overlay.insert 0 c offset (cStr d)) =
      Overlay.fit 0 offset c ++ Overlay.fit 0 d.length (cStr d) := by
  have hd := length_cStr_le d
  have hlen : (Overlay.fit 0 offset c ++ cStr d).length = offset + (cStr d).length := by
    rw [List.length_append, Overlay.length_fit]
  rw [insert_cStr h, Overlay.fit_of_ge 0 (by omega), Overlay.fit_of_ge 0 hd, hlen, List.append_assoc,
    Nat.add_sub_add_left]

theorem length_insert_cStr_le {c : Bytes} {offset : Nat} (h : c.length ≤ offset) (d : Bytes) :
    (Overlay.insert 0 c offset (cStr d)).length ≤ offset + d.length := by
  rw [insert_cStr h, List.length_append, Overlay.length_fit]
  exact Nat.add_le_add_left (length_cStr_le d) _

/-- Later chunks keep what lies before them, filled up to the offset. -/
theorem stored_cons_prefix {c : Bytes} {offset : Nat} (h : c.length ≤ offset) (d : Bytes) (ds : List Bytes) :
    ∃ rest, stored c offset (d :: ds) = Overlay.fit 0 offset c ++ rest := by
  induction ds generalizing c offset d with
  | nil => exact ⟨cStr d, insert_cStr h d⟩
  | cons d' ds ih =>
    obtain ⟨rest, hr⟩ := ih (length_insert_cStr_le h d) d'
    rw [fit_insert_cStr h, List.append_assoc] at hr
    exact ⟨_, hr⟩

theorem stored_eq_flatten_iff {c : Bytes} {offset : Nat} (h : c.length ≤ offset) (d : Bytes) (ds : List Bytes) :
    stored c offset (d :: ds) = Overlay.fit 0 offset c ++ (d :: ds).flatten ↔ StoredWhole (d :: ds) := by
  induction ds generalizing c offset d with
  | nil =>
    rw [stored, stored, insert_cStr h, List.flatten_singleton, List.append_cancel_left_eq]
    exact cStr_eq_self
  | cons d' ds ih =>
    have hlen := length_insert_cStr_le h d
    obtain ⟨rest, hr⟩ := stored_cons_prefix hlen d' ds
    have hih := ih hlen d'
    rw [hr, fit_insert_cStr h, List.append_cancel_left_eq] at hih
    rw [stored, hr, fit_insert_cStr h, StoredWhole, ← hih, ← paddedText_iff, List.flatten_cons, List.append_assoc,
      List.append_cancel_left_eq]
    constructor
    · intro he
      exact List.append_inj he (Overlay.length_fit 0 _ _)
    · rintro ⟨hd, rfl⟩
      rw [hd]

/-- A call of `write_file_content`. -/
structure WriteRequest where
  path : AbsPath
  buffer : Memory
  size : Nat
  offset : Nat

def WriteRequest.perform (w : WriteRequest) : Method FilesystemData Unit :=
  writeFileContent w.path.toCString w.buffer w.size w.offset

def performWrites : List WriteRequest → Method FilesystemData Unit
  | [] => pure ()
  | w :: ws => do
    w.perform
    performWrites ws

/-- The same request, from buffers that agree on the bytes asked for and may differ after them. -/
structure SameRequest (v w : WriteRequest) : Prop where
  path : v.path = w.path
  size : v.size = w.size
  offset : v.offset = w.offset
  bytes : load v.buffer 0 v.size = load w.buffer 0 w.size

theorem SameRequest.perform_eq {v w : WriteRequest} (h : SameRequest v w) : v.perform = w.perform := by
  have hwritten : ∀ c, writtenContent c v.buffer v.size v.offset = writtenContent c w.buffer w.size w.offset := by
    intro c
    rw [writtenContent_eq_insert, writtenContent_eq_insert, take_cStr_eq, take_cStr_eq, h.bytes, h.offset]
  simp only [WriteRequest.perform, writeFileContent, hwritten, h.path]

theorem performWrites_congr {vs ws : List WriteRequest} (h : List.Forall₂ SameRequest vs ws) :
    performWrites vs = performWrites ws := by
  induction h with
  | nil => rfl
  | cons hvw _ ih => rw [performWrites, performWrites, hvw.perform_eq, ih]

/-- A write keeps which files there are. -/
theorem WriteRequest.run_perform {s : FilesystemData} {w : WriteRequest} (hf : FileAt s w.path) :
    ∃ s', w.perform.run s = .ok () s' ∧ ∀ p, FileAt s p → FileAt s' p := by
  obtain ⟨i, hi⟩ := hf.exists_slot
  refine ⟨_, run_assignFile hi _, fun p hp => ?_⟩
  rw [fileAt_iff_isSome] at hp ⊢
  rw [fileIndex, FilesystemData.assign, KeyedList.position_congr (StdVector.map_modify (fun _ => by rfl) _ _)]
  exact hp

theorem run_performWrites (ws : List WriteRequest) {s : FilesystemData} (hf : ∀ w ∈ ws, FileAt s w.path) :
    ∃ s', (performWrites ws).run s = .ok () s' := by
  induction ws generalizing s with
  | nil => exact ⟨s, rfl⟩
  | cons w ws ih =>
    obtain ⟨m, hm, hkeep⟩ := WriteRequest.run_perform (hf w List.mem_cons_self)
    obtain ⟨s', hs⟩ := ih fun v hv => hkeep v.path (hf v (List.mem_cons_of_mem _ hv))
    refine ⟨s', ?_⟩
    rw [performWrites, EStateM.run_bind, hm]
    exact hs

/-- Writes to existing files return and end in one state, whatever lies in memory after the bytes asked for. -/
theorem writes_depend_on_bytes_asked {s : FilesystemData} {vs ws : List WriteRequest}
    (h : List.Forall₂ SameRequest vs ws) (hf : ∀ v ∈ vs, FileAt s v.path) :
    ∃ s', (performWrites vs).run s = .ok () s' ∧ (performWrites ws).run s = .ok () s' := by
  obtain ⟨s', hs⟩ := run_performWrites vs hf
  exact ⟨s', hs, by rw [← performWrites_congr h, hs]⟩

/-- Two writes at the end of the file, from buffers that end there or go on. -/
theorem writes_depend_on_bytes_asked_init :
    ∃ s', (performWrites [⟨mgFile1, text "ab", 2, 19⟩, ⟨mgFile1, text "cd" ++ [0, 1], 2, 21⟩]).run (init .plain) =
        .ok () s' ∧
      (performWrites [⟨mgFile1, text "abxyz", 2, 19⟩, ⟨mgFile1, text "cd" ++ [2], 2, 21⟩]).run (init .plain) =
        .ok () s' ∧
      s'.contentAt mgFile1 = some (text "this is the contentabcd") := by
  have hf : FileAt (init .plain) mgFile1 := rfl
  obtain ⟨s', hrun, hrun'⟩ := writes_depend_on_bytes_asked
    (.cons ⟨rfl, rfl, rfl, rfl⟩ (.cons ⟨rfl, rfl, rfl, rfl⟩ .nil) :
      List.Forall₂ SameRequest [⟨mgFile1, text "ab", 2, 19⟩, ⟨mgFile1, text "cd" ++ [0, 1], 2, 21⟩]
        [⟨mgFile1, text "abxyz", 2, 19⟩, ⟨mgFile1, text "cd" ++ [2], 2, 21⟩])
    (s := init .plain) (by simpa using hf)
  refine ⟨s', hrun, hrun', ?_⟩
  cases hrun
  rfl

/-- A chunk of a byte string, with what lies after it in memory. -/
structure Chunk where
  ctx : CallContext
  data : Bytes
  tail : Memory

/-- The calls that write the chunks one after the other. -/
def chunkCalls (p : AbsPath) : Nat → List Chunk → List Call
  | _, [] => []
  | offset, c :: cs =>
    ⟨c.ctx, .write p (c.data ++ c.tail) c.data.length offset⟩ :: chunkCalls p (offset + c.data.length) cs

theorem HoldsFile.exec_chunkCalls {p : AbsPath} (offset : Nat) (chunks : List Chunk) {o : Object} {s : FilesystemData}
    (h : HoldsFile p o s) :
    ∃ s', ramSystem.exec (chunkCalls p offset chunks) s = some s' ∧
      HoldsFile p { o with content := stored o.content offset (chunks.map (·.data)) } s' := by
  induction chunks generalizing offset o s with
  | nil => exact ⟨s, rfl, h⟩
  | cons c cs ih =>
    obtain ⟨m, hm, hfile⟩ := h.step_write c.ctx (c.data ++ c.tail) c.data.length offset
    rw [take_cStr_append] at hfile
    obtain ⟨s', hs, hfile'⟩ := ih (offset + c.data.length) hfile
    exact ⟨s', GuardedSystem.exec_cons.mpr ⟨m, hm, hs⟩, hfile'⟩

/-- `mg_write` returns the size and stores the whole buffer after the content and a gap of zeros. -/
def WritesWhole (s : FilesystemData) (p : AbsPath) (c d : Bytes) (ctx : CallContext) (tail : Memory)
    (offset : Nat) : Prop :=
  ∃ s', (mgWrite (filesystemData ctx) p.toCString (d ++ tail) d.length offset).run s = .ok (d.length : Int) s' ∧
    s'.contentAt p = some (c ++ List.replicate (offset - c.length) 0 ++ d)

theorem writesWhole_iff {s : FilesystemData} (h : s.WellFormed) {p : AbsPath} (hf : FileAt s p) {c : Bytes}
    (hc : s.contentAt p = some c) (ctx : CallContext) (d : Bytes) (tail : Memory) {offset : Nat}
    (ho : c.length ≤ offset) : WritesWhole s p c d ctx tail offset ↔ 0 ∉ d ∧ d.length < 2147483648 := by
  obtain ⟨s', hr, _, _, hc'⟩ :=
    h.run_editContent hf hc fun content => writtenContent content (d ++ tail) d.length offset
  have hrun : (mgWrite (filesystemData ctx) p.toCString (d ++ tail) d.length offset).run s =
      .ok (toCInt d.length) s' := by
    simp only [mgWrite, filesystemData, writeFileContent, EStateM.run_bind, hr]
    rfl
  rw [writtenContent_eq_insert, take_cStr_append, insert_cStr ho, Overlay.fit_of_ge 0 ho] at hc'
  rw [WritesWhole, hrun]
  constructor
  · rintro ⟨t, ht, htc⟩
    obtain ⟨hcode, rfl⟩ : toCInt d.length = d.length ∧ s' = t := by
      injection ht with hcode hstate
      exact ⟨hcode, hstate⟩
    rw [hc', Option.some.injEq, List.append_cancel_left_eq] at htc
    exact ⟨cStr_eq_self.mp htc, toCInt_eq_self.mp hcode⟩
  · rintro ⟨hd, hlen⟩
    refine ⟨s', by rw [toCInt_eq_self.mpr hlen], ?_⟩
    rw [hc', cStr_of_nul_free hd]

/-- At or past the end `mg_write` stores what it reports exactly for text of less than 2 GiB, and chunks written
to an empty file store their bytes exactly when each is text with zeros after it and the last is text. -/
theorem mgWrite_stores_whole_iff {s : FilesystemData} (h : ramSystem.Reachable s) {p : AbsPath} (hf : FileAt s p)
    {c : Bytes} (hc : s.contentAt p = some c) :
    (∀ ctx d tail offset, c.length ≤ offset →
      (WritesWhole s p c d ctx tail offset ↔ 0 ∉ d ∧ d.length < 2147483648)) ∧
    (c = [] → ∀ chunks : List Chunk,
      (∃ s', ramSystem.exec (chunkCalls p 0 chunks) s = some s' ∧
        s'.contentAt p = some (chunks.map (·.data)).flatten) ↔ StoredWhole (chunks.map (·.data))) := by
  have hw := wellFormed_of_reachable h
  refine ⟨fun ctx d tail offset ho => writesWhole_iff hw hf hc ctx d tail ho, ?_⟩
  rintro rfl chunks
  obtain ⟨o, hfile⟩ := hw.holdsFile hf
  have hempty : o.content = [] := Option.some.inj (hfile.contentAt.symm.trans hc)
  obtain ⟨s', hs, hfile'⟩ := hfile.exec_chunkCalls 0 chunks
  have hiff : stored [] 0 (chunks.map (·.data)) = (chunks.map (·.data)).flatten ↔
      StoredWhole (chunks.map (·.data)) := by
    cases chunks with
    | nil => exact iff_of_true rfl trivial
    | cons c cs =>
      have hnil : ([] : Bytes).length ≤ 0 := Nat.le_refl 0
      exact stored_eq_flatten_iff hnil c.data (cs.map (·.data))
  rw [← hiff]
  constructor
  · rintro ⟨t, ht, htc⟩
    obtain rfl : s' = t := Option.some.inj (hs.symm.trans ht)
    rw [hfile'.contentAt, hempty] at htc
    exact Option.some.inj htc
  · intro he
    exact ⟨s', hs, by rw [hfile'.contentAt, hempty, he]⟩

/-- A letter is stored two bytes past the end, and two chunks fill an empty file, the first with a zero at its end. -/
theorem mgWrite_stores_whole_iff_init :
    WritesWhole (init .plain) mgFile1 (text "this is the content") (text "X") .plain [1] 21 ∧
      (∃ s', ramSystem.exec (chunkCalls notes 0 [⟨.plain, text "ab" ++ [0], [1]⟩, ⟨.plain, text "cd", [1]⟩]) withNotes =
        some s' ∧ s'.contentAt notes = some (text "ab" ++ 0 :: text "cd")) ∧
      ¬ ∃ s', ramSystem.exec (chunkCalls notes 0 [⟨.plain, [0, 65], [1]⟩, ⟨.plain, text "cd", [1]⟩]) withNotes =
        some s' ∧ s'.contentAt notes = some ([0, 65] ++ text "cd") := by
  have hf : FileAt (init .plain) mgFile1 := rfl
  have hnotes : FileAt withNotes notes := rfl
  have hone := (mgWrite_stores_whole_iff (.start ⟨.plain, rfl⟩) hf rfl).1 .plain (text "X") [1] 21 (by decide)
  have hchunks := (mgWrite_stores_whole_iff reachable_withNotes hnotes rfl).2 rfl
  have hlast : 0 ∉ text "cd" := by decide
  have hwhole : StoredWhole [text "ab" ++ [0], text "cd"] := ⟨fun b hb => List.mem_singleton.mp hb, hlast⟩
  have hcut : ¬ StoredWhole [[0, 65], text "cd"] := fun h => absurd (h.1 65 (by decide)) (by decide)
  exact ⟨hone.mpr ⟨by decide, by decide⟩,
    (hchunks [⟨.plain, text "ab" ++ [0], [1]⟩, ⟨.plain, text "cd", [1]⟩]).mpr hwhole,
    mt (hchunks [⟨.plain, [0, 65], [1]⟩, ⟨.plain, text "cd", [1]⟩]).mp hcut⟩

/-- Of a zero and a letter nothing is stored, while 2 is returned. -/
theorem mgWrite_drops_binary :
    ramSystem.Reachable (init .plain) ∧ FileAt (init .plain) mgFile1 ∧
      ∃ s', (mgWrite (filesystemData .plain) mgFile1.toCString [0, 65] 2 19).run (init .plain) = .ok 2 s' ∧
        s'.contentAt mgFile1 = some (text "this is the content") ∧
        ¬ WritesWhole (init .plain) mgFile1 (text "this is the content") [0, 65] .plain [] 19 := by
  refine ⟨.start ⟨.plain, rfl⟩, rfl, _, rfl, rfl, ?_⟩
  rintro ⟨s', hr, hc⟩
  cases hr
  exact absurd hc (by decide)

end MGFileSystem
