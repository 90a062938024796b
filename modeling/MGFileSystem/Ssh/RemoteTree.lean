import MGFileSystem.Foundations.KeyedList
import MGFileSystem.Foundations.Overlay
import MGFileSystem.Ssh.ExportedDirectory

/-! A remote host that stores a tree of files and directories, behind the calls of libssh, and how far each change of
the tree reaches. -/
namespace MGFileSystem
open PosixPath

/-- A file or a directory of a host. -/
structure RemoteNode where
  isDirectory : Bool
  mode : UInt32
  user : UInt32
  group : UInt32
  access : Timeval
  modification : Timeval
  content : Bytes
  deriving DecidableEq

/-- A host whose nodes lie at locations, with the files open on it and where each is read or written next. -/
structure RemoteTree where
  nodes : List (List Bytes × RemoteNode)
  openFiles : List (List Bytes × Nat)

namespace RemoteTree

def find (t : RemoteTree) (l : List Bytes) : Option RemoteNode := (KeyedList.lookup Prod.fst t.nodes l).map Prod.snd

/-- The locations of a directory's entries. -/
def entries (t : RemoteTree) (l : List Bytes) : List (List Bytes) :=
  (t.nodes.map Prod.fst).filter fun k => decide (k ≠ [] ∧ k.dropLast = l)

/-- What lies at a location: a node, and the entries if it is a directory. -/
def object (t : RemoteTree) (l : List Bytes) : Option RemoteNode × List (List Bytes) := (t.find l, t.entries l)

def holds (t : RemoteTree) (isDirectory : Bool) (l : List Bytes) : Bool :=
  (t.find l).any fun n => n.isDirectory == isDirectory

/-- An entry can be made at the location. -/
def free (t : RemoteTree) (l : List Bytes) : Bool := (t.find l).isNone && decide (l ≠ []) && t.holds true l.dropLast

def add (t : RemoteTree) (l : List Bytes) (node : RemoteNode) : RemoteTree := { t with nodes := t.nodes ++ [(l, node)] }

def drop (t : RemoteTree) (l : List Bytes) : RemoteTree :=
  { t with nodes := t.nodes.filter fun n => decide ¬ l <+: n.1 }

def move (t : RemoteTree) (l l' : List Bytes) : RemoteTree :=
  { t with nodes := t.nodes.map fun n => if l <+: n.1 then (l' ++ n.1.drop l.length, n.2) else n }

def edit (t : RemoteTree) (l : List Bytes) (f : RemoteNode → RemoteNode) : RemoteTree :=
  { t with nodes := t.nodes.map fun n => if n.1 = l then (n.1, f n.2) else n }

end RemoteTree

/-- A new node of the session's user, the superuser at the epoch. -/
def RemoteNode.new (isDirectory : Bool) (mode : UInt32) : RemoteNode := ⟨isDirectory, mode, 0, 0, ⟨0, 0⟩, ⟨0, 0⟩, []⟩

/-- Does what is asked where a condition holds, and else refuses. -/
def RemoteTree.answer (t : RemoteTree) (ok : Bool) (f : RemoteTree → RemoteTree) : Int × RemoteTree :=
  if ok then (SSH_OK, f t) else (-1, t)

def RemoteTree.openFile (t : RemoteTree) (l : List Bytes) : Option Nat × RemoteTree :=
  if t.holds false l then (some t.openFiles.length, { t with openFiles := t.openFiles ++ [(l, 0)] }) else (none, t)

/-- A session with such a host, which lists no directories. -/
def treeLibssh : Libssh RemoteTree where
  sftpOpendir _ t := (none, t)
  sftpReaddir _ t := (none, t)
  sftpDirEof _ t := (true, t)
  sftpClosedir _ t := (SSH_OK, t)
  sftpStat path t := ((t.find (resolve slash dot path)).map fun n =>
    { mode := (if n.isDirectory then S_IFDIR else S_IFREG) ||| n.mode, nlink := 1, size := n.content.length
      uid := n.user, gid := n.group, atime := n.access.sec, mtime := n.modification.sec }, t)
  sftpOpen path flags mode t :=
    let l := resolve slash dot path
    (if flags = O_CREAT ∧ t.free l then t.add l (.new false mode) else t).openFile l
  sftpSeek file offset t :=
    match file with
    | some file => (SSH_OK, { t with openFiles := t.openFiles.modify file fun f => (f.1, offset.toNat) })
    | none => (-1, t)
  sftpRead file size t :=
    match file.bind (t.openFiles[·]?) with
    | some (l, offset) =>
      ((t.find l).map fun n => ⟨(n.content.drop offset).take size, List.length_take_le size _⟩, t)
    | none => (none, t)
  sftpWrite file data t :=
    match file.bind (t.openFiles[·]?) with
    | some (l, offset) => (some data.length, t.edit l fun n =>
        { n with content := if data = [] then n.content else Overlay.overwrite 0 n.content offset data })
    | none => (none, t)
  sftpClose _ t := (SSH_OK, t)
  sftpChmod path mode t :=
    let l := resolve slash dot path
    t.answer (t.find l).isSome fun t => t.edit l fun n => { n with mode := mode }
  sftpChown path user group t :=
    let l := resolve slash dot path
    t.answer (t.find l).isSome fun t => t.edit l fun n => { n with user := user, group := group }
  sftpRename path newPath t :=
    let l := resolve slash dot path
    let l' := resolve slash dot newPath
    t.answer ((t.find l).isSome && t.free l' && decide ¬ l <+: l') fun t => t.move l l'
  sftpMkdir path mode t :=
    let l := resolve slash dot path
    t.answer (t.free l) fun t => t.add l (.new true mode)
  sftpRmdir path t :=
    let l := resolve slash dot path
    t.answer (t.holds true l && (t.entries l).isEmpty) fun t => t.drop l
  sftpUnlink path t :=
    let l := resolve slash dot path
    t.answer (t.holds false l) fun t => t.drop l
  sftpUtimes path access modification t :=
    let l := resolve slash dot path
    t.answer (t.find l).isSome fun t => t.edit l fun n => { n with access := access, modification := modification }

namespace RemoteTree
variable {t t' : RemoteTree} {l k : List Bytes}

/-- The nodes that lie elsewhere than at or below a location. -/
def apart (t : RemoteTree) (k : List Bytes) : List (List Bytes × RemoteNode) :=
  t.nodes.filter fun n => decide ¬ k <+: n.1

theorem lookup_apart (t : RemoteTree) (hl : ¬ k <+: l) :
    KeyedList.lookup Prod.fst (t.apart k) l = KeyedList.lookup Prod.fst t.nodes l := by
  rw [apart, KeyedList.lookup, KeyedList.lookup, List.find?_filter]
  refine congrArg (List.find? · t.nodes) (funext fun n => ?_)
  by_cases hn : n.1 = l
  · simp [hn, hl]
  · simp [hn]

theorem entries_apart (t : RemoteTree) (hl : ¬ k <+: l) (hk : l ≠ k.dropLast) :
    ((t.apart k).map Prod.fst).filter (fun j => decide (j ≠ [] ∧ j.dropLast = l)) = t.entries l := by
  have hchild : ∀ j : List Bytes, j ≠ [] → j.dropLast = l → ¬ k <+: j := by
    rintro j hj rfl hpre
    rw [← List.dropLast_concat_getLast hj, List.prefix_concat_iff, List.dropLast_concat_getLast hj] at hpre
    rcases hpre with rfl | hpre
    · exact hk rfl
    · exact hl hpre
  rw [entries, apart, List.filter_map, List.filter_map, List.filter_filter]
  refine congrArg (List.map Prod.fst) (List.filter_congr fun n _ => ?_)
  by_cases hn : n.1 ≠ [] ∧ n.1.dropLast = l
  · simp [hn, hchild n.1 hn.1 hn.2]
  · simp only [Function.comp_apply, decide_eq_false hn, Bool.false_and]

/-- Trees with the same nodes elsewhere hold the same objects but in the directory above. -/
theorem object_of_apart (h : t'.apart k = t.apart k) (hl : ¬ k <+: l) (hk : l ≠ k.dropLast) :
    t'.object l = t.object l := by
  rw [object, object, find, find, ← lookup_apart t' hl, ← entries_apart t' hl hk, h, lookup_apart t hl,
    entries_apart t hl hk]

theorem object_add (node : RemoteNode) (hl : ¬ k <+: l) (hk : l ≠ k.dropLast) :
    (t.add k node).object l = t.object l := by
  refine object_of_apart ?_ hl hk
  rw [apart, add, List.filter_append, List.filter_cons_of_neg (by simp), List.filter_nil, List.append_nil]
  rfl

theorem object_drop (hl : ¬ k <+: l) (hk : l ≠ k.dropLast) : (t.drop k).object l = t.object l := by
  refine object_of_apart ?_ hl hk
  rw [apart, drop, List.filter_filter]
  simp only [Bool.and_self]
  rfl

/-- What is moved lies at its new place, and is gone from the old one. -/
theorem object_move {k' : List Bytes} (hl : ¬ k <+: l) (hk : l ≠ k.dropLast) (hl' : ¬ k' <+: l)
    (hk' : l ≠ k'.dropLast) :
    (t.move k k').object l = t.object l := by
  rw [← object_drop (t := t) hl hk]
  refine object_of_apart ?_ hl' hk'
  rw [apart, move, apart, drop, List.filter_map, List.filter_filter]
  have hmoved : ∀ n : List Bytes × RemoteNode, k <+: n.1 → k' <+: k' ++ n.1.drop k.length :=
    fun n _ => List.prefix_append _ _
  have hfilter : t.nodes.filter ((fun n => decide ¬ k' <+: n.1) ∘ fun n =>
        if k <+: n.1 then (k' ++ n.1.drop k.length, n.2) else n) =
      t.nodes.filter fun n => decide (¬ k' <+: n.1) && decide ¬ k <+: n.1 := by
    refine List.filter_congr fun n _ => ?_
    by_cases hn : k <+: n.1
    · simp [hn]
    · simp [hn]
  rw [hfilter]
  refine (List.map_congr_left fun n hn => ?_).trans (List.map_id _)
  have hstays : ¬ k <+: n.1 := by
    have hboth := List.of_mem_filter hn
    simp only [Bool.and_eq_true, decide_eq_true_eq] at hboth
    exact hboth.2
  rw [if_neg hstays]
  rfl

/-- A changed node keeps its place. -/
theorem object_edit (f : RemoteNode → RemoteNode) (hl : l ≠ k) : (t.edit k f).object l = t.object l := by
  have hkey : ∀ n : List Bytes × RemoteNode, (if n.1 = k then (n.1, f n.2) else n).1 = n.1 := by
    intro n
    split <;> rfl
  have hkeys : (t.edit k f).nodes.map Prod.fst = t.nodes.map Prod.fst := by
    rw [edit, List.map_map]
    exact List.map_congr_left fun n _ => hkey n
  have hfind : (t.edit k f).find l = t.find l := by
    rw [find, edit, find, KeyedList.lookup_map]
    simp only [hkey]
    cases hn : KeyedList.lookup Prod.fst t.nodes l with
    | none => rfl
    | some n =>
      have hat : n.1 = l := by simpa using List.find?_some hn
      have hne : n.1 ≠ k := hat ▸ hl
      rw [Option.map_some, if_neg hne]
  rw [object, object, hfind, entries, entries, hkeys]

theorem object_openFile (t : RemoteTree) (l : List Bytes) : (t.openFile l).2.object = t.object := by
  unfold openFile
  split <;> rfl

theorem object_answer {ok : Bool} {f : RemoteTree → RemoteTree} (h : (f t).object l = t.object l) :
    (t.answer ok f).2.object l = t.object l := by
  unfold answer
  split
  · exact h
  · rfl

end RemoteTree

end MGFileSystem
