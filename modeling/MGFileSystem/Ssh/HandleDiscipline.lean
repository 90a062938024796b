import MGFileSystem.Ssh.TrackedSession
import MGFileSystem.Ssh.RemoteOutcomes

/-! Which calls of `ssh_backend` use their handles as libssh asks for. A failed `sftp_open`
is reported and its null pointer used all the same, a failed listing leaves its directory open,
and attributes are freed only inside the listing. -/
namespace MGFileSystem
open HandleLog Tracked
open SshBackend (getFullPath)

/-- A call that obtains handles. -/
inductive HandleCall where
  | listFilesInDir (path : CString)
  | readFileContent (ctx : CallContext) (path : CString) (offset size : Nat)
  | writeFileContent (path : CString) (data : Memory) (size offset : Nat)
  | createFile (path : CString) (newMode : UInt32)
  | getAttributes (path : CString) (st : Stat)
  | fileExists (path : CString)
  | directoryExists (path : CString)

variable {σ α : Type} (lib : Libssh σ) (mountDir : Bytes) (rounds : Nat)

namespace HandleCall

/-- The call of the member function, whose result is not looked at. -/
def perform : HandleCall → Method σ Unit
  | listFilesInDir path => (fun _ => ()) <$> SshBackend.listFilesInDir lib mountDir rounds path
  | readFileContent ctx path offset size =>
    (fun _ => ()) <$> SshBackend.readFileContent lib mountDir ctx path offset size
  | writeFileContent path data size offset => SshBackend.writeFileContent lib mountDir path data size offset
  | createFile path newMode => SshBackend.createFile lib mountDir path newMode
  | getAttributes path st => (fun _ => ()) <$> SshBackend.getAttributes lib mountDir path st
  | fileExists path => (fun _ => ()) <$> SshBackend.fileExists lib mountDir path
  | directoryExists path => (fun _ => ()) <$> SshBackend.directoryExists lib mountDir path

/-- The same call over the session that logs its handles. -/
def performTracked : HandleCall → Method (Tracked σ) Unit
  | listFilesInDir path => (fun _ => ()) <$> Tracked.listFilesInDir lib mountDir rounds path
  | readFileContent ctx path offset size =>
    (fun _ => ()) <$> Tracked.readFileContent lib mountDir ctx path offset size
  | writeFileContent path data size offset => Tracked.writeFileContent lib mountDir path data size offset
  | createFile path newMode => Tracked.createFile lib mountDir path newMode
  | getAttributes path st => (fun _ => ()) <$> Tracked.getAttributes lib mountDir path st
  | fileExists path => (fun _ => ()) <$> Tracked.fileExists lib mountDir path
  | directoryExists path => (fun _ => ()) <$> Tracked.directoryExists lib mountDir path

theorem erases_perform (c : HandleCall) :
    Erases (c.performTracked lib mountDir rounds) (c.perform lib mountDir rounds) := by
  cases c with
  | listFilesInDir path => exact (erases_listFilesInDir lib mountDir rounds path).map _
  | readFileContent ctx path offset size => exact (erases_readFileContent lib mountDir ctx path offset size).map _
  | writeFileContent path data size offset => exact erases_writeFileContent lib mountDir path data size offset
  | createFile path newMode => exact erases_createFile lib mountDir path newMode
  | getAttributes path st => exact (erases_getAttributes lib mountDir path st).map _
  | fileExists path | directoryExists path => exact (erases_withAttributes lib mountDir path Option.isSome).map _

end HandleCall

/-- A call that returns leaves every handle released once, and no call passes on a null pointer or a
released handle. -/
def Disciplined : EStateM.Result Fault (Tracked σ) α → Prop
  | .ok _ t => WellUsed t.log ∧ ReleasedOnce t.log
  | .error _ t => WellUsed t.log

theorem disciplined_map {β : Type} (f : α → β) (m : Method (Tracked σ) α) (t : Tracked σ) :
    Disciplined ((f <$> m).run t) ↔ Disciplined (m.run t) := by
  rw [Method.run_map]
  cases m.run t <;> rfl

/-- A handle that was issued and passed on twice is the one to be released. -/
theorem owes_used (call call' : LibsshCall) {log : CallLog} (h : Owes [] log) :
    Owes [fresh log]
      (.pass call' (some (fresh log)) :: .pass call (some (fresh log)) :: .issue (fresh log) :: log) := by
  have hissued := h.issue (fresh_not_mem log)
  exact (hissued.pass _ List.mem_cons_self).pass _ List.mem_cons_self

theorem disciplined_withAttributes (path : CString) (f : Option Stat → α) {t : Tracked σ} (ht : Owes [] t.log) :
    Disciplined ((withAttributes lib mountDir path f).run t) ↔
      (lib.sftpStat (getFullPath mountDir path) t.session).1 = none := by
  simp only [withAttributes, sftpStat, EStateM.run_bind, run_issuing]
  cases (lib.sftpStat (getFullPath mountDir path) t.session).1 with
  | none => exact iff_of_true (owes_nil.mp ht) rfl
  | some a => exact iff_of_false (fun h => (ht.issue (fresh_not_mem _)).not_releasedOnce h.2) nofun

theorem disciplined_createFile (path : CString) (newMode : UInt32) {t : Tracked σ} (ht : Owes [] t.log) :
    Disciplined ((Tracked.createFile lib mountDir path newMode).run t) ↔
      (lib.sftpOpen (getFullPath mountDir path) O_CREAT newMode t.session).1.isSome := by
  simp only [Tracked.createFile, sftpOpen, sftpClose, EStateM.run_bind, run_issuing]
  cases (lib.sftpOpen (getFullPath mountDir path) O_CREAT newMode t.session).1 with
  | none => exact iff_of_false (fun h => nomatch h.1.1) nofun
  | some a => exact iff_of_true (owes_nil.mp (ht.issue (fresh_not_mem _)).release) rfl

theorem disciplined_writeFileContent (path : CString) (data : Memory) (size offset : Nat) {t : Tracked σ}
    (ht : Owes [] t.log) :
    Disciplined ((Tracked.writeFileContent lib mountDir path data size offset).run t) ↔
      (lib.sftpOpen (getFullPath mountDir path) O_WRONLY 0 t.session).1.isSome := by
  simp only [Tracked.writeFileContent, sftpOpen, sftpSeek, sftpWrite, sftpClose, EStateM.run_bind, run_issuing]
  cases (lib.sftpOpen (getFullPath mountDir path) O_WRONLY 0 t.session).1 with
  | none => exact iff_of_false (fun h => nomatch h.1.1) nofun
  | some a =>
    have hused := owes_used .sftpSeek .sftpWrite ht
    exact iff_of_true (owes_nil.mp hused.release) rfl

theorem disciplined_readFileContent (ctx : CallContext) (path : CString) (offset size : Nat) {t : Tracked σ}
    (ht : Owes [] t.log) :
    Disciplined ((Tracked.readFileContent lib mountDir ctx path offset size).run t) ↔
      (lib.sftpOpen (getFullPath mountDir path) O_RDONLY 0 t.session).1.isSome := by
  simp only [Tracked.readFileContent, sftpOpen, sftpSeek, sftpRead, sftpClose, EStateM.run_bind, run_issuing]
  cases (lib.sftpOpen (getFullPath mountDir path) O_RDONLY 0 t.session).1 with
  | none =>
    simp only [run_note, run_onSession, Option.map_none]
    split
    · exact iff_of_false (fun h => nomatch h.1) nofun
    · exact iff_of_false (fun h => nomatch h.1.1) nofun
  | some a =>
    have hused := owes_used .sftpSeek .sftpRead ht
    simp only [run_note, run_onSession, Option.map_some]
    split
    · exact iff_of_true hused.wellUsed rfl
    · exact iff_of_true (owes_nil.mp hused.release) rfl

/-- The entries of the directory end, and not with an error. -/
def EndsAtEof (dir : Nat) : Nat → σ → Prop
  | 0, _ => True
  | rounds + 1, s =>
    match lib.sftpReaddir dir s with
    | (some _, s') => EndsAtEof dir rounds s'
    | (none, s') => (lib.sftpDirEof dir s').1 = true

/-- The loop over the entries frees each of them and keeps the directory open. -/
theorem run_readEntries (dir : Numbered Nat) {owed : List Nat} {t : Tracked σ} (ht : Owes (dir.number :: owed) t.log) :
    (∃ names t', (Tracked.readEntries lib dir rounds).run t = .ok names t' ∧ Owes (dir.number :: owed) t'.log ∧
      (EndsAtEof lib dir.value rounds t.session ↔ (lib.sftpDirEof dir.value t'.session).1 = true)) ∨
    (∃ e t', (Tracked.readEntries lib dir rounds).run t = .error e t' ∧ WellUsed t'.log ∧
      EndsAtEof lib dir.value rounds t.session) := by
  induction rounds generalizing t with
  | zero => exact .inr ⟨_, t, rfl, ht.wellUsed, trivial⟩
  | succ rounds ih =>
    have hpass := ht.pass .sftpReaddir List.mem_cons_self
    rw [Tracked.readEntries, EndsAtEof]
    simp only [sftpReaddir, EStateM.run_bind, run_note, run_issuing]
    cases hr : lib.sftpReaddir dir.value t.session with
    | mk file s' =>
      cases file with
      | none => exact .inl ⟨[], _, rfl, hpass, Iff.rfl⟩
      | some name =>
        -- The entry is freed before the next round.
        have hfreed := (hpass.issue (fresh_not_mem _)).release
        simp only [sftpAttributesFree, EStateM.run_bind, run_note]
        rcases ih (t := ⟨s', _⟩) hfreed with ⟨names, t', hrun, howes, hiff⟩ | ⟨e, t', hrun, hused, heof⟩
        · refine .inl ⟨cStr name :: names, t', ?_, howes, hiff⟩
          rw [hrun]
          rfl
        · refine .inr ⟨e, t', ?_, hused, heof⟩
          rw [hrun]

theorem disciplined_listFilesInDir (path : CString) {t : Tracked σ} (ht : Owes [] t.log) :
    Disciplined ((Tracked.listFilesInDir lib mountDir rounds path).run t) ↔
      ∀ dir s', lib.sftpOpendir (getFullPath mountDir path) t.session = (some dir, s') →
        EndsAtEof lib dir rounds s' := by
  simp only [Tracked.listFilesInDir, sftpOpendir, EStateM.run_bind, run_issuing]
  cases hopen : lib.sftpOpendir (getFullPath mountDir path) t.session with
  | mk dir s' =>
    cases dir with
    | none => exact iff_of_true (owes_nil.mp ht) nofun
    | some dir =>
      have hdir := ht.issue (fresh_not_mem t.log)
      have hcond : (∀ d s'', (some dir, s') = (some d, s'') → EndsAtEof lib d rounds s'') ↔
          EndsAtEof lib dir rounds s' := by
        constructor
        · exact fun h => h dir s' rfl
        · rintro h _ _ ⟨⟩
          exact h
      rw [hcond]
      simp only [EStateM.run_bind]
      rcases run_readEntries lib rounds ⟨fresh t.log, dir⟩ (t := ⟨s', _⟩) hdir with
        ⟨names, t', hrun, howes, hiff⟩ | ⟨e, t', hrun, hused, heof⟩
      · rw [hrun, hiff]
        have heof := howes.pass .sftpDirEof List.mem_cons_self
        simp only [sftpDirEof, EStateM.run_bind, run_note, run_onSession]
        cases (lib.sftpDirEof dir t'.session).1 with
        | false => exact iff_of_false (fun h => heof.not_releasedOnce h.2) nofun
        | true => exact iff_of_true (owes_nil.mp heof.release) rfl
      · rw [hrun]
        exact iff_of_true hused heof

namespace HandleCall

/-- The outcomes of libssh under which a call keeps the discipline. -/
def Kept (s : σ) : HandleCall → Prop
  | listFilesInDir path => ∀ dir s', lib.sftpOpendir (getFullPath mountDir path) s = (some dir, s') →
    EndsAtEof lib dir rounds s'
  | readFileContent _ path _ _ => (lib.sftpOpen (getFullPath mountDir path) O_RDONLY 0 s).1.isSome
  | writeFileContent path _ _ _ => (lib.sftpOpen (getFullPath mountDir path) O_WRONLY 0 s).1.isSome
  | createFile path newMode => (lib.sftpOpen (getFullPath mountDir path) O_CREAT newMode s).1.isSome
  | getAttributes path _ | fileExists path | directoryExists path =>
    (lib.sftpStat (getFullPath mountDir path) s).1 = none

theorem disciplined_iff (c : HandleCall) {t : Tracked σ} (ht : Owes [] t.log) :
    Disciplined ((c.performTracked lib mountDir rounds).run t) ↔ c.Kept lib mountDir rounds t.session := by
  cases c with
  | listFilesInDir path => exact (disciplined_map _ _ t).trans (disciplined_listFilesInDir lib mountDir rounds path ht)
  | readFileContent ctx path offset size =>
    exact (disciplined_map _ _ t).trans (disciplined_readFileContent lib mountDir ctx path offset size ht)
  | writeFileContent path data size offset => exact disciplined_writeFileContent lib mountDir path data size offset ht
  | createFile path newMode => exact disciplined_createFile lib mountDir path newMode ht
  | getAttributes path | fileExists path | directoryExists path =>
    exact (disciplined_map _ _ t).trans (disciplined_withAttributes lib mountDir path _ ht)

end HandleCall

/-- The calls one after the other, up to the first that fails. -/
def performAll : List HandleCall → Method (Tracked σ) Unit
  | [] => pure ()
  | c :: calls => do
    c.performTracked lib mountDir rounds
    performAll calls

/-- `ssh_backend` as a system whose steps are its calls, with libssh answering as it likes. -/
def handleSystem : GuardedSystem σ HandleCall where
  initial _ := True
  guard _ _ := True
  step c s := match (c.perform lib mountDir rounds).run s with
    | .ok _ s' => some s'
    | .error _ _ => none

/-- The discipline is kept whenever a call of the sequence has returned, or failed. -/
def AlwaysDisciplined (calls : List HandleCall) (t : Tracked σ) : Prop :=
  ∀ n, Disciplined ((performAll lib mountDir rounds (calls.take n)).run t)

theorem alwaysDisciplined_cons (c : HandleCall) (calls : List HandleCall) {t : Tracked σ} (ht : Owes [] t.log) :
    AlwaysDisciplined lib mountDir rounds (c :: calls) t ↔ ∀ n,
      Disciplined ((do c.performTracked lib mountDir rounds; performAll lib mountDir rounds (calls.take n)).run t) := by
  constructor
  · exact fun h n => h (n + 1)
  · rintro h (_ | n)
    · exact owes_nil.mp ht
    · exact h n

theorem alwaysDisciplined_iff (calls : List HandleCall) {t : Tracked σ} (ht : Owes [] t.log) :
    AlwaysDisciplined lib mountDir rounds calls t ↔
      (handleSystem lib mountDir rounds).Along (fun s c => c.Kept lib mountDir rounds s) calls t.session := by
  induction calls generalizing t with
  | nil =>
    refine iff_of_true (fun n => ?_) trivial
    rw [List.take_nil]
    exact owes_nil.mp ht
  | cons c calls ih =>
    rw [alwaysDisciplined_cons lib mountDir rounds c calls ht, GuardedSystem.Along,
      ← c.disciplined_iff lib mountDir rounds ht]
    have herase := c.erases_perform lib mountDir rounds t
    cases hrun : (c.performTracked lib mountDir rounds).run t with
    | error e t' =>
      rw [hrun] at herase
      have hstep : (handleSystem lib mountDir rounds).step c t.session = none := by
        simp only [handleSystem, ← herase, forget]
      simp only [hstep, EStateM.run_bind, hrun]
      simp
    | ok _ t' =>
      rw [hrun] at herase
      have hstep : (handleSystem lib mountDir rounds).step c t.session = some t'.session := by
        simp only [handleSystem, ← herase, forget]
      simp only [hstep, EStateM.run_bind, hrun, Option.some.injEq, forall_eq']
      constructor
      · intro h
        have hreturned : Disciplined (.ok () t') := h 0
        exact ⟨hreturned, (ih (owes_nil.mpr hreturned)).mp h⟩
      · rintro ⟨hreturned, halong⟩
        exact (ih (owes_nil.mpr hreturned)).mpr halong

/-- Whatever libssh answers, a sequence of calls keeps the discipline exactly when every file can be opened, every
listing ends without an error, and every question for attributes fails. -/
theorem handle_discipline_iff (calls : List HandleCall) (s : σ) :
    AlwaysDisciplined lib mountDir rounds calls ⟨s, []⟩ ↔
      (handleSystem lib mountDir rounds).Along (fun s c => c.Kept lib mountDir rounds s) calls s :=
  alwaysDisciplined_iff lib mountDir rounds calls (t := ⟨s, []⟩) (owes_nil.mpr ⟨trivial, nofun⟩)

/-- A file that the host refuses to create: the null pointer goes to `sftp_close`. -/
theorem createFile_closes_null :
    (hostLibssh.sftpOpen (getFullPath (text "/srv") notes.toCString) O_CREAT 0o644 srvHost).1 = none ∧
      (∃ t, ((HandleCall.createFile notes.toCString 0o644).performTracked hostLibssh (text "/srv") 0).run
        ⟨srvHost, []⟩ = .ok () t ∧ t.log = [.release none]) ∧
      ¬ AlwaysDisciplined hostLibssh (text "/srv") 0 [.createFile notes.toCString 0o644] ⟨srvHost, []⟩ := by
  have hnull : (hostLibssh.sftpOpen (getFullPath (text "/srv") notes.toCString) O_CREAT 0o644 srvHost).1 = none := by
    decide
  refine ⟨hnull, ⟨_, rfl, rfl⟩, fun h => ?_⟩
  obtain ⟨⟨⟨r, hr, _⟩, _⟩, _⟩ := h 1
  cases hr

end MGFileSystem
