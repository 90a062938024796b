import MGFileSystem.Ssh.BackendAgreement

/-! What the callbacks report over the remote backend. The interface carries no status and
no length, so counts come from `strlen` or from the request, and failures become 0. -/
namespace MGFileSystem
open SshBackend

/-- A callback that reads, writes or changes something on the remote host. -/
inductive RemoteCallback where
  | read (path : CString) (buffer : Bytes) (size offset : Nat)
  | write (path : CString) (buffer : Memory) (size offset : Nat)
  | chmod (path : CString) (mode : UInt32)
  | chown (path : CString) (user group : UInt32)
  | rename (path newPath : CString)
  | mkdir (path : CString) (mode : UInt32)
  | unlink (path : CString)
  | rmdir (path : CString)
  | utimens (path : CString) (access modification : Timespec)

structure RemoteCall where
  ctx : CallContext
  callback : RemoteCallback

variable {σ : Type} (lib : Libssh σ) (mountDir : Bytes) (rounds : Nat)

/-- The code of the callback, with the caller's buffer for `mg_read`. -/
def RemoteCall.perform (c : RemoteCall) : Method σ (Int × Bytes) :=
  let B := sshBackend lib mountDir rounds c.ctx
  match c.callback with
  | .read path buffer size offset => mgRead B path buffer size offset
  | .write path buffer size offset => (·, []) <$> mgWrite B path buffer size offset
  | .chmod path mode => (·, []) <$> mgChmod B path mode
  | .chown path user group => (·, []) <$> mgChown B path user group
  | .rename path newPath => (·, []) <$> mgRename B path newPath
  | .mkdir path mode => (·, []) <$> mgMkdir B path mode
  | .unlink path => (·, []) <$> mgUnlink B path
  | .rmdir path => (·, []) <$> mgRmdir B path
  | .utimens path access modification => (·, []) <$> mgUtimens B path access modification

/-- The state in which a file was opened and positioned, with its handle. -/
def positioned (path : CString) (flags offset : Nat) (s : σ) : Option Nat × σ :=
  let (file, s) := lib.sftpOpen (getFullPath mountDir path) flags 0 s
  (file, (lib.sftpSeek file (.ofNat offset) s).2)

/-- The bytes that `sftp_read` delivers during `mg_read`, unless it fails. -/
def delivered (path : CString) (size offset : Nat) (s : σ) : Option Bytes :=
  let (file, s) := positioned lib mountDir path O_RDONLY offset (lib.sftpStat (getFullPath mountDir path) s).2
  (lib.sftpRead file size s).1.map Subtype.val

/-- The number of bytes that `sftp_write` accepts during `mg_write`, unless it fails. -/
def accepted (path : CString) (buffer : Memory) (size offset : Nat) (s : σ) : Option Nat :=
  let (file, s) := positioned lib mountDir path O_WRONLY offset s
  (lib.sftpWrite file (load buffer 0 size) s).1

/-- The libssh call that makes the change a callback asks for. -/
def RemoteCallback.request : RemoteCallback → Option (σ → Int × σ)
  | read .. | write .. => none
  | chmod path mode => some (lib.sftpChmod (getFullPath mountDir path) mode)
  | chown path user group => some (lib.sftpChown (getFullPath mountDir path) user group)
  | rename path newPath => some (lib.sftpRename (getFullPath mountDir path) (getFullPath mountDir newPath))
  | mkdir path mode => some (lib.sftpMkdir (getFullPath mountDir path) mode)
  | unlink path => some (lib.sftpUnlink (getFullPath mountDir path))
  | rmdir path => some (lib.sftpRmdir (getFullPath mountDir path))
  | utimens path access modification =>
    some (lib.sftpUtimes (getFullPath mountDir path) (timeval access) (timeval modification))

/-- The callback returns what happened on the remote host: the count of the transfer or a negative
code, and 0 for a change only if it was made. -/
def Truthful (s : σ) (c : RemoteCall) : Prop :=
  match c.callback with
  | .read path _ size offset => (lib.sftpStat (getFullPath mountDir path) s).1.isSome →
    ∃ code b, (c.perform lib mountDir rounds).answer s = .ok (code, b) ∧
      (code < 0 ∨ ∃ d, delivered lib mountDir path size offset s = some d ∧
        code = d.length ∧ b.take d.length = d)
  | .write path buffer size offset =>
    ∃ code b, (c.perform lib mountDir rounds).answer s = .ok (code, b) ∧
      (code < 0 ∨ ∃ n, accepted lib mountDir path buffer size offset s = some n ∧ code = n)
  | callback => ∃ code b, (c.perform lib mountDir rounds).answer s = .ok (code, b) ∧
      (code = 0 → ∀ request, callback.request lib mountDir = some request → (request s).1 = SSH_OK)

/-- The outcomes for which constants and `strlen` tell what happened. A count of 2^31 or more, cut to
an `int`, may turn into a negative code. -/
def Reported (s : σ) (c : RemoteCall) : Prop :=
  match c.callback with
  | .read path _ size offset => (lib.sftpStat (getFullPath mountDir path) s).1.isSome →
    ∃ d, delivered lib mountDir path size offset s = some d ∧
      (0 ∉ d ∧ d.length < 2147483648 ∧ strlen c.ctx.afterBuffer % 4294967296 = 0 ∨
        2147483648 ≤ strlen (d ++ c.ctx.afterBuffer) % 4294967296)
  | .write path buffer size offset =>
    accepted lib mountDir path buffer size offset s = some (size % 4294967296) ∨ 2147483648 ≤ size % 4294967296
  | callback => ∀ request, callback.request lib mountDir = some request → (request s).1 = SSH_OK

theorem toCInt_neg_iff {n : Nat} : toCInt n < 0 ↔ 2147483648 ≤ n % 4294967296 := by
  unfold toCInt
  rw [Int.bmod_def]
  split <;> omega

theorem toCInt_of_mod_lt {n : Nat} (h : n % 4294967296 < 2147483648) : toCInt n = (n % 4294967296 : Nat) := by
  unfold toCInt
  rw [Int.bmod_def]
  split <;> omega

/-- `strlen` reports the length of delivered bytes only if they are text that a NUL follows. -/
theorem toCInt_strlen_eq_iff {d after : Bytes} :
    toCInt (strlen (d ++ after)) = d.length ↔
      0 ∉ d ∧ d.length < 2147483648 ∧ strlen after % 4294967296 = 0 := by
  by_cases hd : 0 ∈ d
  · have hlt := length_cStr_lt hd
    have hle := toCInt_le (strlen (d ++ after))
    rw [strlen, cStr_append_of_mem hd] at hle ⊢
    constructor
    · intro he
      omega
    · exact fun h => absurd hd h.1
  · rw [strlen, cStr_append hd, List.length_append]
    simp only [hd, not_false_eq_true, true_and]
    unfold toCInt strlen
    rw [Int.bmod_def]
    split <;> omega

section Callbacks
variable {lib mountDir rounds} {s : σ} {ctx : CallContext}

/-- Whatever libssh answers, `mg_read` measures the delivered bytes with `strlen`. -/
theorem answer_mgRead_overSsh {path : CString} (h : (lib.sftpStat (getFullPath mountDir path) s).1.isSome)
    (buffer : Bytes) (size offset : Nat) :
    (mgRead (sshBackend lib mountDir rounds ctx) path buffer size offset).answer s =
      match delivered lib mountDir path size offset s with
      | none => .error .badAlloc
      | some d => .ok (toCInt (strlen (d ++ ctx.afterBuffer)), load (d ++ ctx.afterBuffer) 0 size ++ buffer.drop size) := by
  simp only [Method.answer, mgRead, sshBackend, fileExists, readFileContent, delivered, positioned,
    EStateM.run_bind, run_sftp, EStateM.run_pure, h, if_true]
  cases (lib.sftpRead _ size _).1 <;> rfl

theorem delivered_length_le {path : CString} {size offset : Nat} {d : Bytes}
    (h : delivered lib mountDir path size offset s = some d) : d.length ≤ size := by
  obtain ⟨b, _, rfl⟩ := Option.map_eq_some_iff.mp h
  exact b.property

private theorem exists_answer_iff {x : Int} {y : Bytes} {P : Int → Bytes → Prop} :
    (∃ code b, (.ok (x, y) : Except Fault (Int × Bytes)) = .ok (code, b) ∧ P code b) ↔ P x y := by
  constructor
  · rintro ⟨code, b, he, hp⟩
    obtain ⟨rfl, rfl⟩ := Prod.mk.inj (Except.ok.inj he)
    exact hp
  · exact fun hp => ⟨x, y, rfl, hp⟩

theorem truthful_read_iff (path : CString) (buffer : Bytes) (size offset : Nat) :
    Truthful lib mountDir rounds s ⟨ctx, .read path buffer size offset⟩ ↔
      Reported lib mountDir s ⟨ctx, .read path buffer size offset⟩ := by
  apply forall_congr'
  intro hexists
  simp only [RemoteCall.perform, answer_mgRead_overSsh hexists]
  cases hd : delivered lib mountDir path size offset s with
  | none => simp
  | some d =>
    have htake : ∀ rest : Bytes, (load (d ++ ctx.afterBuffer) 0 size ++ rest).take d.length = d := by
      intro rest
      rw [load_append (delivered_length_le hd), List.append_assoc, List.take_left]
    simp only [exists_answer_iff, Option.some.injEq, exists_eq_left', htake, and_true, toCInt_strlen_eq_iff,
      toCInt_neg_iff]
    exact Or.comm

theorem truthful_write_iff (path : CString) (buffer : Memory) (size offset : Nat) :
    Truthful lib mountDir rounds s ⟨ctx, .write path buffer size offset⟩ ↔
      Reported lib mountDir s ⟨ctx, .write path buffer size offset⟩ := by
  have hanswer : (RemoteCall.perform lib mountDir rounds ⟨ctx, .write path buffer size offset⟩).answer s =
      .ok (toCInt size, []) := rfl
  simp only [Truthful, Reported, hanswer, exists_answer_iff, toCInt_neg_iff]
  rcases Nat.lt_or_ge (size % 4294967296) 2147483648 with hlt | hge
  · have hne : ¬ 2147483648 ≤ size % 4294967296 := Nat.not_le.mpr hlt
    simp only [hne, false_or, or_false, toCInt_of_mod_lt hlt, Int.natCast_inj]
    constructor
    · rintro ⟨n, hn, rfl⟩
      exact hn
    · exact fun hn => ⟨_, hn, rfl⟩
  · exact iff_of_true (.inl hge) (.inr hge)

/-- A callback that asks for a change returns 0 whatever libssh answers. -/
theorem truthful_change_iff {callback : RemoteCallback} {request : σ → Int × σ}
    (h : callback.request lib mountDir = some request) :
    Truthful lib mountDir rounds s ⟨ctx, callback⟩ ↔ Reported lib mountDir s ⟨ctx, callback⟩ := by
  have hanswer : (RemoteCall.perform lib mountDir rounds ⟨ctx, callback⟩).answer s = .ok (0, []) := by
    cases callback <;> cases h <;> rfl
  cases callback <;> cases h <;>
    simp only [Truthful, Reported, hanswer, exists_answer_iff, true_imp_iff]

theorem truthful_iff (s : σ) (c : RemoteCall) :
    Truthful lib mountDir rounds s c ↔ Reported lib mountDir s c := by
  obtain ⟨ctx, callback⟩ := c
  cases hr : callback.request lib mountDir with
  | some request => exact truthful_change_iff hr
  | none =>
    cases callback with
    | read path buffer size offset => exact truthful_read_iff path buffer size offset
    | write path buffer size offset => exact truthful_write_iff path buffer size offset
    | chmod | chown | rename | mkdir | unlink | rmdir | utimens => cases hr

end Callbacks

/-- The remote backend under its callbacks, with libssh answering as it likes. -/
def sshSystem : GuardedSystem σ RemoteCall where
  initial _ := True
  guard _ _ := True
  step c s := match (c.perform lib mountDir rounds).run s with
    | .ok _ s' => some s'
    | .error _ _ => none

/-- In every run, whatever libssh answers, the callbacks tell what happened on the remote host exactly when
each answer of libssh is one that constants and `strlen` report. -/
theorem run_truthful_iff (calls : List RemoteCall) (s : σ) :
    (sshSystem lib mountDir rounds).Along (Truthful lib mountDir rounds) calls s ↔
      (sshSystem lib mountDir rounds).Along (Reported lib mountDir) calls s := by
  constructor
  · exact GuardedSystem.Along.imp fun s c h => (truthful_iff s c).mp h
  · exact GuardedSystem.Along.imp fun s c h => (truthful_iff s c).mpr h

/-- A host that refuses to change the mode of a file: the callback returns 0 nevertheless. -/
theorem mgChmod_hides_failure :
    (mgChmod (sshBackend hostLibssh (text "/srv") 0 .plain) FilesystemData.mgFile1.toCString 0o600).answer srvHost = .ok 0 ∧
      (hostLibssh.sftpChmod (getFullPath (text "/srv") FilesystemData.mgFile1.toCString) 0o600 srvHost).1 = -1 ∧
      ¬ Truthful hostLibssh (text "/srv") 0 srvHost ⟨.plain, .chmod FilesystemData.mgFile1.toCString 0o600⟩ := by
  refine ⟨rfl, rfl, fun h => ?_⟩
  obtain ⟨code, b, he, hcode⟩ := h
  obtain ⟨rfl, rfl⟩ := Prod.mk.inj (Except.ok.inj he)
  exact absurd (hcode rfl _ rfl) (by decide)

end MGFileSystem
