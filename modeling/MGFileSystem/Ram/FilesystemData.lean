import MGFileSystem.Backend.Callbacks
import MGFileSystem.Foundations.KeyedList

/-! The in-memory backend `filesystem_data`: its records, its constructor and its
member functions. Lookups scan the two vectors and return the first match. -/
namespace MGFileSystem

structure SimpleFile where
  path : Bytes
  name : Bytes
  mode : UInt32
  content : Bytes
  lastAccessTime : Int
  lastModificationTime : Int
  user : UInt32
  group : UInt32
  deriving DecidableEq, Repr

structure SimpleDirectory where
  directoryFile : SimpleFile
  /-- Pointers into the storage of `_the_files`. -/
  containedFiles : List ElementPtr
  /-- Addresses of objects made by `new simple_directory`. -/
  containedDirectories : List Nat
  /-- Pointer into the storage of `_the_directories`; never read. -/
  rootDirectory : Option ElementPtr
  deriving DecidableEq, Repr

structure FilesystemData where
  theFiles : StdVector SimpleFile
  theDirectories : StdVector SimpleDirectory
  /-- The objects made by `new simple_directory`, each at its address. None is ever freed. -/
  heap : List SimpleDirectory

/-- What `get_fileptr_for_filename` points at, and in which vector it lies. -/
inductive FilePtr where
  | file (f : SimpleFile)
  | directory (f : SimpleFile)
  deriving DecidableEq, Repr

def FilePtr.target : FilePtr → SimpleFile
  | .file f => f
  | .directory f => f

/-- `_path.c_str()`, the text that `strcmp` compares. -/
def SimpleFile.key (f : SimpleFile) : Bytes := cStr f.path

def SimpleDirectory.key (d : SimpleDirectory) : Bytes := d.directoryFile.key

def getDirFromPath (path : Bytes) : Bytes := path.take (after (findLastOf slash path))

def getFilenameFromPath (path : Bytes) : Bytes := path.drop (after (findLastOf slash path))

namespace FilesystemData
variable (ctx : CallContext)

/-- The constructor. -/
def init : FilesystemData :=
  let mgFile1 : SimpleFile :=
    { path := text "/mg_file_1", name := text "mg_file_1", mode := S_IFREG ||| 0o777
      content := text "this is the content", lastAccessTime := ctx.time 0
      lastModificationTime := ctx.time 1, user := ctx.uid, group := ctx.gid }
  let theFiles := StdVector.empty.pushBack ctx.growth mgFile1
  let mgDir1 : SimpleDirectory :=
    { directoryFile :=
        { path := text "/mg_dir_1", name := text "mg_dir_1", mode := S_IFDIR ||| 0o775
          content := text "./\n..\nmg_file_1\n", lastAccessTime := ctx.time 4
          lastModificationTime := ctx.time 5, user := ctx.uid, group := ctx.gid }
      containedFiles := [], containedDirectories := [], rootDirectory := none }
  let rootDir : SimpleDirectory :=
    { directoryFile :=
        { path := text "/", name := text "/", mode := S_IFDIR ||| 0o777
          content := text "./\n..\nmg_file_1\n", lastAccessTime := ctx.time 2
          lastModificationTime := ctx.time 3, user := ctx.uid, group := ctx.gid }
      containedFiles := [theFiles.ptr 0], containedDirectories := [0], rootDirectory := none }
  { theFiles := theFiles
    theDirectories := (StdVector.empty.pushBack ctx.growth mgDir1).pushBack ctx.growth rootDir
    heap := [mgDir1] }

/-- The loop of `get_index_for_filename`. -/
def fileIndex (s : FilesystemData) (path : Bytes) : Option Nat :=
  KeyedList.position SimpleFile.key s.theFiles.elems path

/-- The loop of `get_index_for_dirname`, on the path without its terminating slash. -/
def dirIndex (s : FilesystemData) (path : Bytes) : Option Nat :=
  KeyedList.position SimpleDirectory.key s.theDirectories.elems path

def getIndexForFilename (path : CString) : Method FilesystemData (Option Nat) := do
  return (← get).fileIndex path.bytes

/-- Removes a terminating slash, except from the root directory. -/
def stripSlash (path : Bytes) : Bytes :=
  if path.getLast? = some slash ∧ path.length > 1 then path.take (path.length - 1) else path

def getIndexForDirname (path : CString) : Method FilesystemData (Option Nat) := do
  if path.bytes = [] then throw .emptyBack
  return (← get).dirIndex (cStr (stripSlash path.bytes))

def getParentDirectoryFromPath (path : Bytes) : Method FilesystemData (Option ElementPtr) := do
  if path = [] then throw .emptyBack
  let parentPath :=
    if path.getLast? = some slash then
      path.take (after (findLastOf slash (path.take (path.length - 1))))
    else
      path.take (after (findLastOf slash path))
  match ← getIndexForDirname (.ofBytes parentPath) with
  | some dirIndex => return some ((← get).theDirectories.ptr dirIndex)
  | none => return none

/-- `_the_files.at(index)`. -/
def fileAt (index : Nat) : Method FilesystemData SimpleFile := do
  match (← get).theFiles.elems[index]? with
  | some f => return f
  | none => throw .outOfRange

/-- `_the_directories.at(index)`. -/
def directoryAt (index : Nat) : Method FilesystemData SimpleDirectory := do
  match (← get).theDirectories.elems[index]? with
  | some d => return d
  | none => throw .outOfRange

def getFileptrForFilename (path : Bytes) : Method FilesystemData (Option FilePtr) := do
  match ← getIndexForFilename (.ofBytes path) with
  | some fileIndex => return some (.file (← fileAt fileIndex))
  | none =>
    match ← getIndexForDirname (.ofBytes path) with
    | some dirIndex => return some (.directory (← directoryAt dirIndex).directoryFile)
    | none => return none

/-- The common body of the functions that look a file up, assert that it is there
and assign to fields of `_the_files[index]`. -/
def assignFile (path : CString) (f : SimpleFile → SimpleFile) : Method FilesystemData Unit := do
  let index ← assertFound (← getIndexForFilename path)
  modify fun s => { s with theFiles := s.theFiles.modify index f }

/-- The name of the directory object at an address. -/
def directoryName (address : Nat) : Method FilesystemData Bytes := do
  match (← get).heap[address]? with
  | some d => return cStr d.directoryFile.name
  | none => throw .badPointer

/-- The second loop of `list_files_in_dir`. -/
def fileNames (s : FilesystemData) : List Bytes := s.theFiles.elems.map fun f => cStr f.name

def listFilesInDir (path : CString) : Method FilesystemData (List Bytes) := do
  match ← getIndexForDirname path with
  | some directoryIndex =>
    let directory ← directoryAt directoryIndex
    let directoryNames ← directory.containedDirectories.mapM directoryName
    return directoryNames ++ (← get).fileNames
  | none => throw .outOfRange

def readFileContent (path : CString) (offset readSize : Nat) : Method FilesystemData Memory := do
  let index ← assertFound (← getIndexForFilename path)
  let file ← fileAt index
  -- The block has no room for the terminator, which anything may have overwritten when it is read.
  let theContent := load (strcpy ctx.freshMemory file.content) 0 file.content.length ++ ctx.afterContent
  let buffer := load theContent offset readSize
  return buffer ++ ctx.afterBuffer

def getAttributes (path : CString) (st : Stat) : Method FilesystemData Stat := do
  match ← getFileptrForFilename path.bytes with
  | none => return st
  | some p =>
    let f := p.target
    return { mode := f.mode, nlink := 1, size := f.content.length, uid := f.user, gid := f.group
             atime := f.lastAccessTime, mtime := f.lastModificationTime }

def setAccessAndModificationTimes (path : CString) (access modification : Timespec) :
    Method FilesystemData Unit :=
  assignFile path fun f =>
    { f with lastAccessTime := access.sec, lastModificationTime := modification.sec }

def changeOwnership (path : CString) (newUser newGroup : UInt32) : Method FilesystemData Unit :=
  assignFile path fun f => { f with user := newUser, group := newGroup }

def fileExists (path : CString) : Method FilesystemData Bool := do
  return (← getIndexForFilename path).isSome

def directoryExists (path : CString) : Method FilesystemData Bool := do
  return (← getIndexForDirname path).isSome

def setFileMode (path : CString) (newMode : UInt32) : Method FilesystemData Unit :=
  assignFile path fun f => { f with mode := newMode }

/-- `_content` after `write_file_content`: `std::string::insert`, with a `resize` before
it when the offset lies past the end. -/
def writtenContent (content : Bytes) (newData : Memory) (size offset : Nat) : Bytes :=
  let fullInput := cStr newData
  let stringForWriting := fullInput.take size
  if offset > content.length then
    let resized := content ++ List.replicate (offset - content.length) 0
    resized.take offset ++ stringForWriting ++ resized.drop offset
  else
    content.take offset ++ stringForWriting ++ content.drop offset

def writeFileContent (path : CString) (newData : Memory) (size offset : Nat) :
    Method FilesystemData Unit :=
  assignFile path fun f => { f with content := writtenContent f.content newData size offset }

def truncateFile (path : CString) (newLength : Nat) : Method FilesystemData Unit :=
  assignFile path fun f => { f with content := f.content.take newLength }

/-- `*new_dir`; the mode asked for is not used. -/
def newDirectory (path : CString) (parentOfNewDir : Option ElementPtr) : SimpleDirectory :=
  { directoryFile :=
      { path := path.bytes, name := getFilenameFromPath path.bytes, mode := S_IFDIR ||| 0o775
        content := [], lastAccessTime := ctx.time 0, lastModificationTime := ctx.time 1
        user := ctx.uid, group := ctx.gid }
    containedFiles := [], containedDirectories := [], rootDirectory := parentOfNewDir }

def createDirectory (path : CString) (_newMode : UInt32) : Method FilesystemData Unit := do
  let parentOfNewDir ← getParentDirectoryFromPath path.bytes
  let newDir := newDirectory ctx path parentOfNewDir
  let address := (← get).heap.length
  modify fun s => { s with
    heap := s.heap ++ [newDir]
    theDirectories := s.theDirectories.pushBack ctx.growth newDir }
  match parentOfNewDir with
  | none => throw .badPointer
  | some p =>
    -- `p` was taken before `push_back`: after growth it points into storage that is gone.
    modify fun s => { s with
      theDirectories := s.theDirectories.modifyAt p fun d =>
        { d with containedDirectories := d.containedDirectories ++ [address] } }

/-- Not implemented in the source. -/
def removeDirectory (_path : CString) : Method FilesystemData Unit := pure ()

def removeFile (path : CString) : Method FilesystemData Unit := do
  match ← getIndexForFilename path with
  | some index => modify fun s => { s with theFiles := s.theFiles.eraseIdx index }
  | none => pure ()

def renameFile (path newPath : CString) : Method FilesystemData Unit := do
  if (← getIndexForFilename newPath).isSome then
    removeFile newPath
  assignFile path fun f => { f with path := newPath.bytes, name := newPath.bytes.drop 1 }

def newFile (path : CString) (newMode : UInt32) : SimpleFile :=
  { path := path.bytes, name := path.bytes.drop (after (findLastOf slash path.bytes))
    mode := newMode, content := [], lastAccessTime := ctx.time 0, lastModificationTime := ctx.time 1
    user := ctx.callerUid, group := ctx.callerGid }

def createFile (path : CString) (newMode : UInt32) : Method FilesystemData Unit := do
  modify fun s => { s with theFiles := s.theFiles.pushBack ctx.growth (newFile ctx path newMode) }
  let theDirName := getDirFromPath path.bytes
  let dirIndex ← assertFound (← getIndexForDirname (.ofBytes theDirName))
  unless dirIndex < (← get).theDirectories.elems.length do throw .assertion
  modify fun s => { s with
    theDirectories := s.theDirectories.modify dirIndex fun d =>
      { d with containedFiles := d.containedFiles ++ [s.theFiles.backPtr] } }

end FilesystemData

/-- The virtual functions of `filesystem_data`. -/
def filesystemData (ctx : CallContext) : StorageBackend FilesystemData where
  listFilesInDir := FilesystemData.listFilesInDir
  readFileContent := FilesystemData.readFileContent ctx
  getAttributes := FilesystemData.getAttributes
  fileExists := FilesystemData.fileExists
  directoryExists := FilesystemData.directoryExists
  setFileMode := FilesystemData.setFileMode
  writeFileContent := FilesystemData.writeFileContent
  renameFile := FilesystemData.renameFile
  createDirectory := FilesystemData.createDirectory ctx
  removeDirectory := FilesystemData.removeDirectory
  removeFile := FilesystemData.removeFile
  createFile := FilesystemData.createFile ctx
  setAccessAndModificationTimes := FilesystemData.setAccessAndModificationTimes
  truncateFile := FilesystemData.truncateFile
  changeOwnership := FilesystemData.changeOwnership

end MGFileSystem
