import MGFileSystem.Backend.Callbacks

/-! The remote backend `ssh_backend` over the calls of libssh, which are a parameter. Error
messages are not modelled; nothing else depends on the status of a libssh call. -/
namespace MGFileSystem

def SSH_OK : Int := 0
def O_RDONLY : Nat := 0
def O_WRONLY : Nat := 1
def O_CREAT : Nat := 64

structure Timeval where
  sec : Int
  usec : Int
  deriving DecidableEq, Repr

/-- The libssh calls of the backend, on a state that holds the session and the remote host.
Files and directories are handles, and a null pointer is `none`. -/
structure Libssh (σ : Type) where
  sftpOpendir (path : Bytes) : σ → Option Nat × σ
  /-- The name of the next entry. -/
  sftpReaddir (dir : Nat) : σ → Option Bytes × σ
  sftpDirEof (dir : Nat) : σ → Bool × σ
  sftpClosedir (dir : Nat) : σ → Int × σ
  sftpStat (path : Bytes) : σ → Option Stat × σ
  sftpOpen (path : Bytes) (flags : Nat) (mode : UInt32) : σ → Option Nat × σ
  /-- The offset is a `uint32_t`. -/
  sftpSeek (file : Option Nat) (offset : UInt32) : σ → Int × σ
  /-- At most `size` bytes, or an error. -/
  sftpRead (file : Option Nat) (size : Nat) : σ → Option { b : Bytes // b.length ≤ size } × σ
  /-- How many of the bytes were accepted, or an error. -/
  sftpWrite (file : Option Nat) (data : Bytes) : σ → Option Nat × σ
  sftpClose (file : Option Nat) : σ → Int × σ
  sftpChmod (path : Bytes) (mode : UInt32) : σ → Int × σ
  sftpChown (path : Bytes) (user group : UInt32) : σ → Int × σ
  sftpRename (path newPath : Bytes) : σ → Int × σ
  sftpMkdir (path : Bytes) (mode : UInt32) : σ → Int × σ
  sftpRmdir (path : Bytes) : σ → Int × σ
  sftpUnlink (path : Bytes) : σ → Int × σ
  sftpUtimes (path : Bytes) (access modification : Timeval) : σ → Int × σ

/-- A libssh call inside a member function. -/
def sftp {σ α : Type} (call : σ → α × σ) : Method σ α := modifyGet call

@[simp] theorem run_sftp {σ α : Type} (call : σ → α × σ) (s : σ) :
    (sftp call).run s = .ok (call s).1 (call s).2 := rfl

namespace SshBackend
variable {σ : Type} (lib : Libssh σ) (mountDir : Bytes)

/-- The text of `get_full_path(path).c_str()`. -/
def getFullPath (path : CString) : Bytes := cStr (mountDir ++ text "/" ++ path.bytes)

/-- The loop over `sftp_readdir`, for a number of rounds. -/
def readEntries (dir : Nat) : Nat → Method σ (List Bytes)
  | 0 => throw .outOfRounds
  | rounds + 1 => do
    match ← sftp (lib.sftpReaddir dir) with
    | some name => return cStr name :: (← readEntries dir rounds)
    | none => return []

def listFilesInDir (rounds : Nat) (path : CString) : Method σ (List Bytes) := do
  match ← sftp (lib.sftpOpendir (getFullPath mountDir path)) with
  | none => return []
  | some dir =>
    let names ← readEntries lib dir rounds
    if ← sftp (lib.sftpDirEof dir) then
      let _ ← sftp (lib.sftpClosedir dir)
    return names

def readFileContent (ctx : CallContext) (path : CString) (offset size : Nat) : Method σ Memory := do
  let theFile ← sftp (lib.sftpOpen (getFullPath mountDir path) O_RDONLY 0)
  let _ ← sftp (lib.sftpSeek theFile (.ofNat offset))
  match ← sftp (lib.sftpRead theFile size) with
  -- `new char[read_size]` with a read size of -1.
  | none => throw .badAlloc
  | some buffer =>
    let _ ← sftp (lib.sftpClose theFile)
    return buffer.val ++ ctx.afterBuffer

def getAttributes (path : CString) (st : Stat) : Method σ Stat := do
  match ← sftp (lib.sftpStat (getFullPath mountDir path)) with
  | none => return st
  | some a => return { a with nlink := 1 }

def fileExists (path : CString) : Method σ Bool := do
  return (← sftp (lib.sftpStat (getFullPath mountDir path))).isSome

def directoryExists (path : CString) : Method σ Bool := do
  return (← sftp (lib.sftpStat (getFullPath mountDir path))).isSome

def setFileMode (path : CString) (newMode : UInt32) : Method σ Unit := do
  let _ ← sftp (lib.sftpChmod (getFullPath mountDir path) newMode)

def writeFileContent (path : CString) (data : Memory) (size offset : Nat) : Method σ Unit := do
  let theFile ← sftp (lib.sftpOpen (getFullPath mountDir path) O_WRONLY 0)
  let _ ← sftp (lib.sftpSeek theFile (.ofNat offset))
  let _ ← sftp (lib.sftpWrite theFile (load data 0 size))
  let _ ← sftp (lib.sftpClose theFile)

def renameFile (path newPath : CString) : Method σ Unit := do
  let _ ← sftp (lib.sftpRename (getFullPath mountDir path) (getFullPath mountDir newPath))

def createDirectory (path : CString) (newMode : UInt32) : Method σ Unit := do
  let _ ← sftp (lib.sftpMkdir (getFullPath mountDir path) newMode)

def removeDirectory (path : CString) : Method σ Unit := do
  let _ ← sftp (lib.sftpRmdir (getFullPath mountDir path))

def removeFile (path : CString) : Method σ Unit := do
  let _ ← sftp (lib.sftpUnlink (getFullPath mountDir path))

def createFile (path : CString) (newMode : UInt32) : Method σ Unit := do
  let newFile ← sftp (lib.sftpOpen (getFullPath mountDir path) O_CREAT newMode)
  let _ ← sftp (lib.sftpClose newFile)

/-- Microseconds from nanoseconds, rounded towards zero. -/
def timeval (t : Timespec) : Timeval := ⟨t.sec, t.nsec.tdiv 1000⟩

def setAccessAndModificationTimes (path : CString) (access modification : Timespec) : Method σ Unit := do
  let _ ← sftp (lib.sftpUtimes (getFullPath mountDir path) (timeval access) (timeval modification))

/-- Not implemented in the source. -/
def truncateFile (_path : CString) (_newLength : Nat) : Method σ Unit := pure ()

def changeOwnership (path : CString) (newUser newGroup : UInt32) : Method σ Unit := do
  let _ ← sftp (lib.sftpChown (getFullPath mountDir path) newUser newGroup)

end SshBackend

/-- The virtual functions of `ssh_backend`. -/
def sshBackend {σ : Type} (lib : Libssh σ) (mountDir : Bytes) (rounds : Nat) (ctx : CallContext) :
    StorageBackend σ where
  listFilesInDir := SshBackend.listFilesInDir lib mountDir rounds
  readFileContent := SshBackend.readFileContent lib mountDir ctx
  getAttributes := SshBackend.getAttributes lib mountDir
  fileExists := SshBackend.fileExists lib mountDir
  directoryExists := SshBackend.directoryExists lib mountDir
  setFileMode := SshBackend.setFileMode lib mountDir
  writeFileContent := SshBackend.writeFileContent lib mountDir
  renameFile := SshBackend.renameFile lib mountDir
  createDirectory := SshBackend.createDirectory lib mountDir
  removeDirectory := SshBackend.removeDirectory lib mountDir
  removeFile := SshBackend.removeFile lib mountDir
  createFile := SshBackend.createFile lib mountDir
  setAccessAndModificationTimes := SshBackend.setAccessAndModificationTimes lib mountDir
  truncateFile := SshBackend.truncateFile
  changeOwnership := SshBackend.changeOwnership lib mountDir

end MGFileSystem
