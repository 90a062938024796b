import MGFileSystem.Backend.StorageBackend

/-! The FUSE callbacks of `mg_operations.h` over any storage backend. The ones that
only count themselves and return 0 are not modelled, nor is the printing. -/
namespace MGFileSystem

def ENOENT : Int := 2
def S_IFREG : UInt32 := 0o100000
def S_IFDIR : UInt32 := 0o040000

variable {σ : Type} (B : StorageBackend σ)

/-- Returns the code and the attributes left in the caller's `struct stat`. -/
def mgGetattr (ctx : CallContext) (path : CString) (st : Stat) : Method σ (Int × Stat) := do
  let st := { st with uid := ctx.uid, gid := ctx.gid, atime := ctx.time 0, mtime := ctx.time 1 }
  if path.bytes = text "/" then
    return (0, { st with mode := S_IFDIR ||| 0o755, nlink := 2 })
  else if ← B.fileExists path then
    return (0, ← B.getAttributes path st)
  else if ← B.directoryExists path then
    return (0, ← B.getAttributes path st)
  else
    return (-ENOENT, st)

/-- Returns the code and the names passed to `filler`. -/
def mgReaddir (path : CString) : Method σ (Int × List Bytes) := do
  let names ← B.listFilesInDir path
  return (0, names)

/-- Returns the code and the caller's buffer, which holds `buffer` before the call. -/
def mgRead (path : CString) (buffer : Bytes) (size offset : Nat) : Method σ (Int × Bytes) := do
  if ← B.fileExists path then
    let selectedText ← B.readFileContent path offset size
    return (toCInt (strlen selectedText), load selectedText 0 size ++ buffer.drop size)
  else
    return (-ENOENT, buffer)

def mgChmod (path : CString) (newMode : UInt32) : Method σ Int := do
  B.setFileMode path newMode
  return 0

def mgWrite (path : CString) (buffer : Memory) (size offset : Nat) : Method σ Int := do
  B.writeFileContent path buffer size offset
  return toCInt size

def mgMkdir (path : CString) (newMode : UInt32) : Method σ Int := do
  B.createDirectory path newMode
  return 0

def mgRename (path newName : CString) : Method σ Int := do
  B.renameFile path newName
  return 0

def mgChown (path : CString) (newUser newGroup : UInt32) : Method σ Int := do
  B.changeOwnership path newUser newGroup
  return 0

def mgTruncate (path : CString) (newLength : Nat) : Method σ Int := do
  B.truncateFile path newLength
  return 0

def mgUnlink (path : CString) : Method σ Int := do
  B.removeFile path
  return 0

def mgCreate (path : CString) (newMode : UInt32) : Method σ Int := do
  B.createFile path newMode
  return 0

def mgUtimens (path : CString) (access modification : Timespec) : Method σ Int := do
  B.setAccessAndModificationTimes path access modification
  return 0

def mgRmdir (path : CString) : Method σ Int := do
  B.removeDirectory path
  return 0

end MGFileSystem
