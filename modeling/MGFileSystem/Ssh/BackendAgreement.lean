import MGFileSystem.Ram.PositionalWrite
import MGFileSystem.Ssh.SshBackend

/-! Content of one file under both backends. The memory backend inserts and truncates, the
remote one overwrites and does not truncate, so they part at the first edit inside the file. They part beyond 32 bits
too, where libssh seeks to another offset. -/
namespace MGFileSystem
open FilesystemData

/-- A call that edits the content of a file. The buffer of a write holds text and then other bytes. -/
inductive Edit where
  | write (d : CString) (tail : Memory) (offset : Nat)
  | truncate (length : Nat)

namespace Edit
variable {σ : Type}

def perform (B : StorageBackend σ) (p : CString) : Edit → Method σ Unit
  | write d tail offset => B.writeFileContent p (d.bytes ++ tail) d.bytes.length offset
  | truncate length => B.truncateFile p length

def performAll (B : StorageBackend σ) (p : CString) : List Edit → Method σ Unit
  | [] => pure ()
  | e :: edits => do
    e.perform B p
    performAll B p edits

/-- What the memory backend makes of the content. -/
def inRam (c : Bytes) : Edit → Bytes
  | write d _ offset => Overlay.insert 0 c offset d.bytes
  | truncate length => c.take length

/-- What the remote backend makes of the content. The offset loses all but 32 bits, and a write of no bytes does
nothing. -/
def overSsh (c : Bytes) : Edit → Bytes
  | write d _ offset => if d.bytes = [] then c else Overlay.overwrite 0 c (offset % 4294967296) d.bytes
  | truncate _ => c

/-- Every edit of a file of the given length writes at or past its end and below 4 GiB, or writes nothing and not past
the end, or truncates to no less than its length. -/
def Extending : Nat → List Edit → Prop
  | _, [] => True
  | n, write d _ offset :: edits =>
    (if d.bytes = [] then offset ≤ n else n ≤ offset ∧ offset < 4294967296) ∧
      Extending (max n (offset + d.bytes.length)) edits
  | n, truncate length :: edits => n ≤ length ∧ Extending n edits

theorem write_inRam_eq_iff (c : Bytes) (d : CString) (tail : Memory) (offset : Nat) :
    inRam c (write d tail offset) = overSsh c (write d tail offset) ↔
      if d.bytes = [] then offset ≤ c.length else c.length ≤ offset ∧ offset < 4294967296 := by
  rw [inRam, overSsh]
  by_cases hd : d.bytes = []
  · rw [if_pos hd, if_pos hd, hd]
    exact Overlay.insert_nil_eq_self_iff 0 c offset
  · rw [if_neg hd, if_neg hd]
    by_cases hlow : offset < 4294967296
    · rw [Nat.mod_eq_of_lt hlow, Overlay.insert_eq_overwrite_iff, or_iff_left hd, and_iff_left hlow]
    · -- Past 4 GiB the memory backend has the longer file.
      refine iff_of_false (fun h => ?_) fun h => hlow h.2
      have hlength := congrArg List.length h
      rw [Overlay.length_insert, Overlay.length_overwrite] at hlength
      have hpos := List.length_pos_iff.mpr hd
      have hmod := Nat.mod_lt offset (by decide : 0 < 4294967296)
      omega

theorem length_overSsh_write {c : Bytes} {d : CString} {tail : Memory} {offset : Nat}
    (h : inRam c (write d tail offset) = overSsh c (write d tail offset)) :
    (overSsh c (write d tail offset)).length = max c.length (offset + d.bytes.length) := by
  have hiff := (write_inRam_eq_iff c d tail offset).mp h
  rw [← h, inRam, Overlay.length_insert]
  by_cases hd : d.bytes = []
  · rw [hd]
    rfl
  · rw [if_neg hd] at hiff
    omega

theorem extending_cons {c : Bytes} {e : Edit} {edits : List Edit} :
    Extending c.length (e :: edits) ↔ inRam c e = overSsh c e ∧ Extending (overSsh c e).length edits := by
  cases e with
  | write d tail offset =>
    rw [Extending, ← write_inRam_eq_iff c d tail offset]
    refine and_congr_right fun h => ?_
    rw [length_overSsh_write h]
  | truncate length => rw [Extending, inRam, overSsh, List.take_eq_self_iff]

/-- Two runs of edits agree after every number of edits exactly when they extend the file. -/
theorem agree_iff_extending (edits : List Edit) (c : Bytes) :
    (∀ k, (edits.take k).foldl inRam c = (edits.take k).foldl overSsh c) ↔ Extending c.length edits := by
  induction edits generalizing c with
  | nil => simp [Extending]
  | cons e edits ih =>
    rw [extending_cons, ← ih]
    constructor
    · intro h
      have he : inRam c e = overSsh c e := h 1
      refine ⟨he, fun k => ?_⟩
      have hk := h (k + 1)
      rwa [List.take_succ_cons, List.foldl_cons, List.foldl_cons, he] at hk
    · rintro ⟨he, h⟩ k
      cases k with
      | zero => rfl
      | succ k => rw [List.take_succ_cons, List.foldl_cons, List.foldl_cons, he, h k]

end Edit

/-- The documented behaviour of the calls on a file opened for writing, when each succeeds in full:
they overwrite the content at the offset and fill a gap with zeros. A write of no bytes fills no gap. -/
structure SftpServer {σ : Type} (lib : Libssh σ) where
  content : σ → Bytes → Option Bytes
  /-- The path and offset of an open file. -/
  position : σ → Nat → Option (Bytes × Nat)
  sftpOpen : ∀ s path c, content s path = some c → ∃ file s',
    lib.sftpOpen path O_WRONLY 0 s = (some file, s') ∧ content s' = content s ∧
      position s' file = some (path, 0)
  sftpSeek : ∀ s file path n offset, position s file = some (path, n) → ∃ s',
    lib.sftpSeek (some file) offset s = (SSH_OK, s') ∧ content s' = content s ∧
      position s' file = some (path, offset.toNat)
  sftpWrite : ∀ s file path offset c data, position s file = some (path, offset) → content s path = some c →
    ∃ s', lib.sftpWrite (some file) data s = (some data.length, s') ∧
      content s' = Function.update (content s) path (some (if data = [] then c else Overlay.overwrite 0 c offset data))
  sftpClose : ∀ s file, content (lib.sftpClose (some file) s).2 = content s

namespace Edit
variable {σ : Type} {lib : Libssh σ}

theorem run_overSsh (V : SftpServer lib) {mountDir : Bytes} (rounds : Nat) (ctx : CallContext) {p : CString}
    {t : σ} {c : Bytes} (hc : V.content t (SshBackend.getFullPath mountDir p) = some c) (e : Edit) :
    ∃ t', (e.perform (sshBackend lib mountDir rounds ctx) p).run t = .ok () t' ∧
      V.content t' (SshBackend.getFullPath mountDir p) = some (overSsh c e) := by
  cases e with
  | write d tail offset =>
    obtain ⟨file, t₁, h₁, hc₁, hp₁⟩ := V.sftpOpen t _ c hc
    obtain ⟨t₂, h₂, hc₂, hp₂⟩ := V.sftpSeek t₁ file _ 0 (.ofNat offset) hp₁
    rw [UInt32.toNat_ofNat'] at hp₂
    obtain ⟨t₃, h₃, hc₃⟩ := V.sftpWrite t₂ file _ _ c d.bytes hp₂ (by rw [hc₂, hc₁, hc])
    refine ⟨(lib.sftpClose (some file) t₃).2, ?_, ?_⟩
    · simp [perform, sshBackend, SshBackend.writeFileContent, h₁, h₂, h₃,
        load_append_length]
    · rw [V.sftpClose, hc₃, Function.update_self, overSsh]
  | truncate length => exact ⟨t, rfl, hc⟩

theorem runAll_overSsh (V : SftpServer lib) {mountDir : Bytes} (rounds : Nat) (ctx : CallContext) {p : CString}
    (edits : List Edit) {t : σ} {c : Bytes} (hc : V.content t (SshBackend.getFullPath mountDir p) = some c) :
    ∃ t', (performAll (sshBackend lib mountDir rounds ctx) p edits).run t = .ok () t' ∧
      V.content t' (SshBackend.getFullPath mountDir p) = some (edits.foldl overSsh c) := by
  induction edits generalizing t c with
  | nil => exact ⟨t, rfl, hc⟩
  | cons e edits ih =>
    obtain ⟨m, hm, hcm⟩ := run_overSsh V rounds ctx hc e
    obtain ⟨t', ht, hct⟩ := ih hcm
    refine ⟨t', ?_, hct⟩
    rw [performAll, EStateM.run_bind, hm]
    exact ht

theorem run_inRam {s : FilesystemData} (hw : s.WellFormed) {p : AbsPath} (hf : FileAt s p) {c : Bytes}
    (hc : s.contentAt p = some c) (ctx : CallContext) (e : Edit) :
    ∃ s', (e.perform (filesystemData ctx) p.toCString).run s = .ok () s' ∧
      s'.WellFormed ∧ FileAt s' p ∧ s'.contentAt p = some (inRam c e) := by
  cases e with
  | write d tail offset => exact hw.run_writeFileContent hf hc d.nul_free tail offset
  | truncate length => exact hw.run_editContent hf hc (List.take length)

theorem runAll_inRam (ctx : CallContext) (edits : List Edit) {s : FilesystemData} (hw : s.WellFormed)
    {p : AbsPath} (hf : FileAt s p) {c : Bytes} (hc : s.contentAt p = some c) :
    ∃ s', (performAll (filesystemData ctx) p.toCString edits).run s = .ok () s' ∧
      s'.contentAt p = some (edits.foldl inRam c) := by
  induction edits generalizing s c with
  | nil => exact ⟨s, rfl, hc⟩
  | cons e edits ih =>
    obtain ⟨m, hm, hwm, hfm, hcm⟩ := run_inRam hw hf hc ctx e
    obtain ⟨s', hs, hcs⟩ := ih hwm hfm hcm
    refine ⟨s', ?_, hcs⟩
    rw [performAll, EStateM.run_bind, hm]
    exact hs

end Edit

/-- Both backends return from the edits and leave the same content. -/
def AgreeAfter {σ : Type} {lib : Libssh σ} (V : SftpServer lib) (mountDir : Bytes) (p : AbsPath)
    (s : FilesystemData) (t : σ) (edits : List Edit) : Prop :=
  ∀ ctx rounds, ∃ s' t' c, (Edit.performAll (filesystemData ctx) p.toCString edits).run s = .ok () s' ∧
    (Edit.performAll (sshBackend lib mountDir rounds ctx) p.toCString edits).run t = .ok () t' ∧
    s'.contentAt p = some c ∧ V.content t' (SshBackend.getFullPath mountDir p.toCString) = some c

theorem agreeAfter_iff {σ : Type} {lib : Libssh σ} (V : SftpServer lib) {mountDir : Bytes} {p : AbsPath}
    {s : FilesystemData} (hw : s.WellFormed) (hf : FileAt s p) {t : σ} {c : Bytes} (hc : s.contentAt p = some c)
    (hr : V.content t (SshBackend.getFullPath mountDir p.toCString) = some c) (edits : List Edit) :
    AgreeAfter V mountDir p s t edits ↔ edits.foldl Edit.inRam c = edits.foldl Edit.overSsh c := by
  constructor
  · intro h
    obtain ⟨s', t', c', hs, ht, hcs, hct⟩ := h .plain 0
    obtain ⟨s₁, hs₁, hcs₁⟩ := Edit.runAll_inRam .plain edits hw hf hc
    obtain ⟨t₁, ht₁, hct₁⟩ := Edit.runAll_overSsh V 0 .plain edits hr
    rw [hs] at hs₁
    rw [ht] at ht₁
    cases hs₁
    cases ht₁
    rw [hcs] at hcs₁
    rw [hct] at hct₁
    exact (Option.some.inj hcs₁).symm.trans (Option.some.inj hct₁)
  · intro he ctx rounds
    obtain ⟨s', hs, hcs⟩ := Edit.runAll_inRam ctx edits hw hf hc
    obtain ⟨t', ht, hct⟩ := Edit.runAll_overSsh V rounds ctx edits hr
    exact ⟨s', t', _, hs, ht, hcs, by rw [hct, he]⟩

/-- The backends agree on a file after every prefix of the edits exactly when every edit extends it. -/
theorem backends_agree_iff {σ : Type} {lib : Libssh σ} (V : SftpServer lib) {mountDir : Bytes} {p : AbsPath}
    {s : FilesystemData} (h : ramSystem.Reachable s) (hf : FileAt s p) {t : σ} {c : Bytes}
    (hc : s.contentAt p = some c)
    (hr : V.content t (SshBackend.getFullPath mountDir p.toCString) = some c) (edits : List Edit) :
    (∀ k, AgreeAfter V mountDir p s t (edits.take k)) ↔ Edit.Extending c.length edits := by
  rw [← Edit.agree_iff_extending]
  exact forall_congr' fun k => agreeAfter_iff V (wellFormed_of_reachable h) hf hc hr (edits.take k)

/-- A host with its files and its open files, each a path and an offset. -/
structure RemoteHost where
  files : Bytes → Option Bytes
  openFiles : List (Bytes × Nat)

/-- A session with such a host, which serves the calls on files opened for writing and refuses the rest. -/
def hostLibssh : Libssh RemoteHost where
  sftpOpendir _ s := (none, s)
  sftpReaddir _ s := (none, s)
  sftpDirEof _ s := (true, s)
  sftpClosedir _ s := (SSH_OK, s)
  sftpStat _ s := (none, s)
  sftpOpen path _ _ s :=
    match s.files path with
    | some _ => (some s.openFiles.length, { s with openFiles := s.openFiles ++ [(path, 0)] })
    | none => (none, s)
  sftpSeek file offset s :=
    match file with
    | some file => (SSH_OK, { s with openFiles := s.openFiles.modify file fun f => (f.1, offset.toNat) })
    | none => (-1, s)
  sftpRead _ _ s := (none, s)
  sftpWrite file data s :=
    match file.bind (s.openFiles[·]?) with
    | none => (none, s)
    | some (path, offset) => match s.files path with
      | none => (none, s)
      | some c =>
        let c' := if data = [] then c else Overlay.overwrite 0 c offset data
        (some data.length, { s with files := Function.update s.files path (some c') })
  sftpClose _ s := (SSH_OK, s)
  sftpChmod _ _ s := (-1, s)
  sftpChown _ _ _ s := (-1, s)
  sftpRename _ _ s := (-1, s)
  sftpMkdir _ _ s := (-1, s)
  sftpRmdir _ s := (-1, s)
  sftpUnlink _ s := (-1, s)
  sftpUtimes _ _ _ s := (-1, s)

def hostServer : SftpServer hostLibssh where
  content s := s.files
  position s file := s.openFiles[file]?
  sftpOpen s path c h := by
    refine ⟨s.openFiles.length, { s with openFiles := s.openFiles ++ [(path, 0)] }, ?_, rfl, by simp⟩
    simp only [hostLibssh, h]
  sftpSeek s file path n offset h := by
    refine ⟨{ s with openFiles := s.openFiles.modify file fun f => (f.1, offset.toNat) }, rfl, rfl, ?_⟩
    simp [h]
  sftpWrite s file path offset c data hp hc := by
    have hwrite : hostLibssh.sftpWrite (some file) data s = (some data.length, { s with
        files := Function.update s.files path
          (some (if data = [] then c else Overlay.overwrite 0 c offset data)) }) := by
      simp only [hostLibssh, Option.bind_some, hp, hc]
    exact ⟨_, hwrite, rfl⟩
  sftpClose _ _ := rfl

/-- A host that serves the content of the constructor's file below `/srv`. -/
def srvHost : RemoteHost where
  files path :=
    if path = SshBackend.getFullPath (text "/srv") mgFile1.toCString then some (text "this is the content") else none
  openFiles := []

theorem backends_agree_iff_append :
    (∀ k, AgreeAfter hostServer (text "/srv") mgFile1 (init .plain) srvHost
        ([.write (.ofBytes (text "!")) [] 19, .truncate 20].take k)) ↔
      Edit.Extending (text "this is the content").length [.write (.ofBytes (text "!")) [] 19, .truncate 20] :=
  have hf : FileAt (init .plain) mgFile1 := rfl
  backends_agree_iff hostServer (.start ⟨.plain, rfl⟩) hf rfl (by decide) _

/-- One byte written at the start of the same file: one backend moves the text, the other overwrites it. -/
theorem backends_part_on_overwrite :
    ramSystem.Reachable (init .plain) ∧ FileAt (init .plain) mgFile1 ∧
      (init .plain).contentAt mgFile1 = some (text "this is the content") ∧
      hostServer.content srvHost (SshBackend.getFullPath (text "/srv") mgFile1.toCString) =
        some (text "this is the content") ∧
      ∃ s' t', (Edit.performAll (filesystemData .plain) mgFile1.toCString
            [.write (.ofBytes (text "X")) [] 0]).run (init .plain) = .ok () s' ∧
        (Edit.performAll (sshBackend hostLibssh (text "/srv") 0 .plain) mgFile1.toCString
            [.write (.ofBytes (text "X")) [] 0]).run srvHost = .ok () t' ∧
        s'.contentAt mgFile1 = some (text "Xthis is the content") ∧
        hostServer.content t' (SshBackend.getFullPath (text "/srv") mgFile1.toCString) =
          some (text "Xhis is the content") :=
  ⟨.start ⟨.plain, rfl⟩, rfl, rfl, by decide, _, _, rfl, rfl, rfl, by decide⟩

end MGFileSystem
