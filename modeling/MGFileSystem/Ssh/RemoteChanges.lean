import MGFileSystem.Ssh.LibsshSimulation
import MGFileSystem.Ssh.RemoteTree

/-! What a run of requests may change on the remote host: what lies at and below the paths that it asks to change, and
the directories that hold the entries it makes and removes. -/
namespace MGFileSystem
open PosixPath
variable {σ ω : Type}

/-- The place lies where the path leads, or below. -/
def Below (p : Bytes) (l : List Bytes) : Prop := resolve slash dot p <+: l

/-- It does, or it is the directory that holds the entry there. -/
def WithHolder (p : Bytes) (l : List Bytes) : Prop := Below p l ∨ l = (resolve slash dot p).dropLast

/-- A host without links behind the libssh calls. What it stores lies at locations, which are lists of components.
A call on a path changes what lies there and below; if it makes or removes an entry, also the directory that holds it;
and a call on an open file nothing else. Times of last access do not count. -/
structure SftpFootprint (lib : Libssh σ) (ω : Type) where
  object : σ → List Bytes → ω
  /-- Where an open file lies. -/
  location : σ → Nat → Option (List Bytes)
  sftpOpendir : ∀ s p, object (lib.sftpOpendir p s).2 = object s
  sftpReaddir : ∀ s d, object (lib.sftpReaddir d s).2 = object s
  sftpDirEof : ∀ s d, object (lib.sftpDirEof d s).2 = object s
  sftpClosedir : ∀ s d, object (lib.sftpClosedir d s).2 = object s
  sftpStat : ∀ s p, object (lib.sftpStat p s).2 = object s
  sftpOpen : ∀ s p flags mode l, ¬ WithHolder p l → object (lib.sftpOpen p flags mode s).2 l = object s l
  sftpOpen_reading : ∀ s p, object (lib.sftpOpen p O_RDONLY 0 s).2 = object s
  sftpOpen_writing : ∀ s p l, ¬ Below p l → object (lib.sftpOpen p O_WRONLY 0 s).2 l = object s l
  sftpOpen_location : ∀ s p flags mode f, (lib.sftpOpen p flags mode s).1 = some f →
    location (lib.sftpOpen p flags mode s).2 f = some (resolve slash dot p)
  sftpSeek : ∀ s f offset, object (lib.sftpSeek f offset s).2 = object s
  sftpSeek_location : ∀ s f offset, location (lib.sftpSeek (some f) offset s).2 f = location s f
  sftpRead : ∀ s f size, object (lib.sftpRead f size s).2 = object s
  sftpWrite : ∀ s f data l, f.bind (location s) ≠ some l → object (lib.sftpWrite f data s).2 l = object s l
  sftpClose : ∀ s f, object (lib.sftpClose f s).2 = object s
  sftpChmod : ∀ s p mode l, ¬ Below p l → object (lib.sftpChmod p mode s).2 l = object s l
  sftpChown : ∀ s p user group l, ¬ Below p l → object (lib.sftpChown p user group s).2 l = object s l
  sftpRename : ∀ s p q l, ¬ WithHolder p l → ¬ WithHolder q l → object (lib.sftpRename p q s).2 l = object s l
  sftpMkdir : ∀ s p mode l, ¬ WithHolder p l → object (lib.sftpMkdir p mode s).2 l = object s l
  sftpRmdir : ∀ s p l, ¬ WithHolder p l → object (lib.sftpRmdir p s).2 l = object s l
  sftpUnlink : ∀ s p l, ¬ WithHolder p l → object (lib.sftpUnlink p s).2 l = object s l
  sftpUtimes : ∀ s p access modification l, ¬ Below p l →
    object (lib.sftpUtimes p access modification s).2 l = object s l

/-- The paths at which a request asks the host for changes. `truncate_file` is not implemented. -/
def FuseRequest.changes : FuseRequest → List CString
  | write p _ _ _ | chmod p _ | chown p _ _ | mkdir p _ | unlink p | create p _ | utimens p _ _ | rmdir p => [p]
  | rename p q => [p, q]
  | getattr .. | readdir _ | read .. | truncate .. | stub _ => []

/-- The paths at which it asks to make or remove an entry. -/
def FuseRequest.entries : FuseRequest → List CString
  | mkdir p _ | unlink p | create p _ | rmdir p => [p]
  | rename p q => [p, q]
  | _ => []

/-- The places that a request may change. -/
def FuseRequest.Touches (mountDir : Bytes) (r : FuseRequest) (l : List Bytes) : Prop :=
  (∃ p ∈ r.changes, Below (SshBackend.getFullPath mountDir p) l) ∨
    ∃ p ∈ r.entries, l = (resolve slash dot (SshBackend.getFullPath mountDir p)).dropLast

theorem FuseRequest.entries_subset (r : FuseRequest) : r.entries ⊆ r.changes := by
  cases r with
  | getattr | readdir | read | truncate | stub | write | chmod | chown | utimens => exact List.nil_subset _
  | mkdir | unlink | create | rmdir | rename => exact fun _ => id

/-- The same host for calls that only read; the others it refuses. -/
def Libssh.readOnly (lib : Libssh σ) : Libssh σ :=
  { lib with
    sftpOpen := fun p flags mode s => if flags = O_RDONLY ∧ mode = 0 then lib.sftpOpen p flags mode s else (none, s)
    sftpWrite := fun _ _ s => (none, s)
    sftpChmod := fun _ _ s => (SSH_OK, s)
    sftpChown := fun _ _ _ s => (SSH_OK, s)
    sftpRename := fun _ _ s => (SSH_OK, s)
    sftpMkdir := fun _ _ s => (SSH_OK, s)
    sftpRmdir := fun _ s => (SSH_OK, s)
    sftpUnlink := fun _ s => (SSH_OK, s)
    sftpUtimes := fun _ _ _ s => (SSH_OK, s) }

namespace SftpFootprint
variable {lib : Libssh σ} (server : SftpFootprint lib ω) (l : List Bytes) (o : ω)

/-- One session, with what lies at the location. -/
def Holds (s t : σ) : Prop := s = t ∧ server.object s l = o

variable {server l o} {α : Type}

theorem Holds.sameCall {call : σ → α × σ} (h : ∀ s, server.object (call s).2 l = server.object s l) :
    SameCall (server.Holds l o) call call fun _ => server.Holds l o := by
  rintro s _ ⟨rfl, rfl⟩
  exact ⟨rfl, rfl, h s⟩

/-- Calls that only read leave everything. -/
theorem simulation_readOnly (server : SftpFootprint lib ω) (l : List Bytes) (o : ω) :
    LibsshSimulation (fun _ => True) (server.Holds l o) (fun _ => server.Holds l o) (fun _ => server.Holds l o)
      lib.readOnly lib.readOnly where
  of_file _ _ _ h := h
  of_dir _ _ _ h := h
  sftpOpendir p _ := by
    intro s t h
    have hcall := Holds.sameCall (fun s => congrFun (server.sftpOpendir s p) l) s t h
    exact ⟨hcall.1, hcall.2, fun _ _ => hcall.2⟩
  sftpReaddir d := Holds.sameCall fun s => congrFun (server.sftpReaddir s d) l
  sftpDirEof d := Holds.sameCall fun s => congrFun (server.sftpDirEof s d) l
  sftpClosedir d := Holds.sameCall fun s => congrFun (server.sftpClosedir s d) l
  sftpStat p _ := Holds.sameCall fun s => congrFun (server.sftpStat s p) l
  sftpOpen p flags mode _ := by
    refine Holds.sameCall fun s => ?_
    rw [Libssh.readOnly]
    dsimp only
    split
    · rename_i h
      rw [h.1, h.2]
      exact congrFun (server.sftpOpen_reading s p) l
    · rfl
  sftpSeek f offset := Holds.sameCall fun s => congrFun (server.sftpSeek s f offset) l
  sftpRead f size := Holds.sameCall fun s => congrFun (server.sftpRead s f size) l
  sftpWrite _ _ := Holds.sameCall fun _ => rfl
  sftpClose f := Holds.sameCall fun s => congrFun (server.sftpClose s f) l
  sftpChmod _ _ _ := Holds.sameCall fun _ => rfl
  sftpChown _ _ _ _ := Holds.sameCall fun _ => rfl
  sftpRename _ _ _ _ := Holds.sameCall fun _ => rfl
  sftpMkdir _ _ _ := Holds.sameCall fun _ => rfl
  sftpRmdir _ _ := Holds.sameCall fun _ => rfl
  sftpUnlink _ _ := Holds.sameCall fun _ => rfl
  sftpUtimes _ _ _ _ := Holds.sameCall fun _ => rfl

end SftpFootprint

section Requests
variable {lib : Libssh σ} {mountDir : Bytes} {rounds : Nat}

theorem readEntries_readOnly (dir rounds : Nat) :
    SshBackend.readEntries lib.readOnly dir rounds = SshBackend.readEntries lib dir rounds := by
  induction rounds with
  | zero => rfl
  | succ rounds ih =>
    rw [SshBackend.readEntries, SshBackend.readEntries, ih]
    rfl

/-- A request that asks for no change cannot tell the hosts apart. -/
theorem serve_readOnly {r : FuseRequest} (h : r.changes = []) (ctx : CallContext) :
    r.serve (sshBackend lib.readOnly mountDir rounds ctx) ctx = r.serve (sshBackend lib mountDir rounds ctx) ctx := by
  cases r with
  | readdir path =>
    have hlist : SshBackend.listFilesInDir lib.readOnly mountDir rounds path =
        SshBackend.listFilesInDir lib mountDir rounds path := by
      simp only [SshBackend.listFilesInDir, readEntries_readOnly]
      rfl
    rw [FuseRequest.serve, FuseRequest.serve, mgReaddir, mgReaddir]
    simp only [sshBackend, hlist]
  | getattr | read | truncate | stub => rfl
  | write | chmod | chown | mkdir | rename | unlink | create | utimens | rmdir => cases h

/-- What a program keeps that keeps a relation to itself. -/
theorem Related.left {τ α : Type} {P X : τ → τ → Prop} {Q : α → α → τ → τ → Prop} {K : τ → Prop} {x : Method τ α}
    (h : Related P x x Q X) {s : τ} (hs : P s s) (hQ : ∀ a s, Q a a s s → K s) (hX : ∀ s, X s s → K s) :
    K (x.left s) := by
  have hout := h s s hs
  rw [Method.left]
  cases hrun : x.run s with
  | ok a s' =>
    rw [hrun] at hout
    exact hQ a s' hout
  | error e s' =>
    rw [hrun] at hout
    exact hX s' hout.2

variable (server : SftpFootprint lib ω) {l : List Bytes}

/-- A request that asks for no change makes none. -/
theorem object_serve_reading {r : FuseRequest} (h : r.changes = []) (ctx : CallContext) (m : Mounted σ) :
    server.object ((r.serve (sshBackend lib mountDir rounds ctx) ctx).left m).backend l =
      server.object m.backend l := by
  have hsim := (server.simulation_readOnly l (server.object m.backend l)).overSsh mountDir rounds ctx
  have hserve := hsim.serve (.refl ctx) (r := r) fun _ _ => trivial
  rw [serve_readOnly h] at hserve
  exact hserve.left ⟨⟨rfl, rfl⟩, rfl, rfl⟩ (fun _ _ hQ => hQ.2.1.2) fun _ hX => hX.1.2

/-- A write reaches the file that it opens and nothing else. -/
theorem object_writeFileContent {p : CString} (h : ¬ Below (SshBackend.getFullPath mountDir p) l) (data : Memory)
    (size offset : Nat) (s : σ) :
    server.object ((SshBackend.writeFileContent lib mountDir p data size offset).left s) l = server.object s l := by
  have hleft : (SshBackend.writeFileContent lib mountDir p data size offset).left s =
      let opened := lib.sftpOpen (SshBackend.getFullPath mountDir p) O_WRONLY 0 s
      let sought := lib.sftpSeek opened.1 (.ofNat offset) opened.2
      (lib.sftpClose opened.1 (lib.sftpWrite opened.1 (load data 0 size) sought.2).2).2 := rfl
  rw [hleft]
  dsimp only
  generalize hopened : lib.sftpOpen (SshBackend.getFullPath mountDir p) O_WRONLY 0 s = opened
  have hopen := server.sftpOpen_writing s _ l h
  rw [hopened] at hopen
  have hlocation : opened.1.bind (server.location (lib.sftpSeek opened.1 (.ofNat offset) opened.2).2) ≠ some l := by
    cases hf : opened.1 with
    | none => exact (Option.some_ne_none l).symm
    | some f =>
      rw [Option.bind_some, server.sftpSeek_location, ← hopened, server.sftpOpen_location _ _ _ _ f (hopened ▸ hf)]
      rintro ⟨⟩
      exact h List.prefix_rfl
  rw [server.sftpClose, server.sftpWrite _ _ _ l hlocation, server.sftpSeek, hopen]

/-- A request changes nothing at a location that it does not touch. -/
theorem object_serve (rounds : Nat) {c : FuseCall} (h : ¬ c.request.Touches mountDir l) (m : Mounted σ) :
    server.object ((c.serve (sshBackend lib mountDir rounds)).left m).backend l = server.object m.backend l := by
  obtain ⟨ctx, r⟩ := c
  rw [FuseRequest.Touches, not_or] at h
  obtain ⟨hbelow, hholder⟩ := h
  have hedit : ∀ p ∈ r.changes, ¬ Below (SshBackend.getFullPath mountDir p) l := fun p hp hl => hbelow ⟨p, hp, hl⟩
  have hentry : ∀ p ∈ r.changes, p ∈ r.entries → ¬ WithHolder (SshBackend.getFullPath mountDir p) l :=
    fun p hp hp' hl => hl.elim (hedit p hp) fun he => hholder ⟨p, hp', he⟩
  cases r with
  | getattr | readdir | read | truncate | stub => exact object_serve_reading server rfl ctx m
  | write p data size offset =>
    exact object_writeFileContent server (hedit p (List.mem_singleton_self p)) data size offset m.backend
  | chmod p mode => exact server.sftpChmod _ _ _ l (hedit p (List.mem_singleton_self p))
  | chown p user group => exact server.sftpChown _ _ _ _ l (hedit p (List.mem_singleton_self p))
  | utimens p => exact server.sftpUtimes _ _ _ _ l (hedit p (List.mem_singleton_self p))
  | mkdir p mode =>
    exact server.sftpMkdir _ _ _ l (hentry p (List.mem_singleton_self p) (List.mem_singleton_self p))
  | rmdir p => exact server.sftpRmdir _ _ l (hentry p (List.mem_singleton_self p) (List.mem_singleton_self p))
  | unlink p => exact server.sftpUnlink _ _ l (hentry p (List.mem_singleton_self p) (List.mem_singleton_self p))
  | create p mode =>
    have hopen := server.sftpOpen m.backend (SshBackend.getFullPath mountDir p) O_CREAT mode l
      (hentry p (List.mem_singleton_self p) (List.mem_singleton_self p))
    exact (congrFun (server.sftpClose _ _) l).trans hopen
  | rename p q =>
    have hq : q ∈ [p, q] := List.mem_cons_of_mem _ (List.mem_singleton_self q)
    exact server.sftpRename _ _ _ l (hentry p List.mem_cons_self List.mem_cons_self) (hentry q hq hq)

/-- The same for a run of requests. -/
theorem object_serveAll {calls : List FuseCall} (h : ∀ c ∈ calls, ¬ c.request.Touches mountDir l) (m : Mounted σ) :
    server.object ((serveAll (sshBackend lib mountDir rounds) calls).left m).backend l =
      server.object m.backend l := by
  induction calls generalizing m with
  | nil => rfl
  | cons c calls ih =>
    have hfirst := object_serve server rounds (h c List.mem_cons_self) m
    have hrest := ih fun d hd => h d (List.mem_cons_of_mem _ hd)
    rw [Method.left, run_serveAll_cons]
    rw [Method.left] at hfirst
    cases hrun : (c.serve (sshBackend lib mountDir rounds)).run m with
    | error e m' =>
      rw [hrun] at hfirst
      exact hfirst
    | ok reply m' =>
      rw [hrun] at hfirst
      have hlater := hrest m'
      rw [Method.left] at hlater
      dsimp only at hfirst ⊢
      cases hrun' : (serveAll (sshBackend lib mountDir rounds) calls).run m' with
      | ok replies m'' =>
        rw [hrun'] at hlater
        exact hlater.trans hfirst
      | error e m'' =>
        rw [hrun'] at hlater
        exact hlater.trans hfirst

end Requests

/-- The tree keeps what its calls do not reach. -/
def treeFootprint : SftpFootprint treeLibssh (Option RemoteNode × List (List Bytes)) where
  object := RemoteTree.object
  location t f := t.openFiles[f]?.map Prod.fst
  sftpOpendir _ _ := rfl
  sftpReaddir _ _ := rfl
  sftpDirEof _ _ := rfl
  sftpClosedir _ _ := rfl
  sftpStat _ _ := rfl
  sftpOpen t p flags mode l hl := by
    rw [WithHolder, not_or] at hl
    dsimp only [treeLibssh]
    rw [RemoteTree.object_openFile]
    split
    · exact RemoteTree.object_add _ hl.1 hl.2
    · rfl
  sftpOpen_reading t p := RemoteTree.object_openFile t _
  sftpOpen_writing t p l _ := congrFun (RemoteTree.object_openFile t _) l
  sftpOpen_location t p flags mode f hf := by
    dsimp only [treeLibssh] at hf ⊢
    generalize (if flags = O_CREAT ∧ t.free (resolve slash dot p) then t.add (resolve slash dot p) (.new false mode)
      else t) = t' at hf ⊢
    unfold RemoteTree.openFile at hf ⊢
    split at hf
    next h =>
      rw [if_pos h]
      cases hf
      simp
    next h => cases hf
  sftpSeek _ f _ := by cases f <;> rfl
  sftpSeek_location t f offset := by
    simp only [treeLibssh, List.getElem?_modify]
    cases t.openFiles[f]? with
    | none => rfl
    | some file => simp
  sftpRead t f _ := by
    dsimp only [treeLibssh]
    cases f.bind (t.openFiles[·]?) <;> rfl
  sftpWrite t f data l hl := by
    dsimp only [treeLibssh]
    cases hf : f.bind (t.openFiles[·]?) with
    | none => rfl
    | some file =>
      refine RemoteTree.object_edit _ fun he => hl ?_
      obtain ⟨f, rfl, hfile⟩ := Option.bind_eq_some_iff.mp hf
      rw [Option.bind_some, hfile, he]
      rfl
  sftpClose _ _ := rfl
  sftpChmod _ _ _ _ hl := RemoteTree.object_answer (RemoteTree.object_edit _ fun he => hl (he ▸ List.prefix_rfl))
  sftpChown _ _ _ _ _ hl := RemoteTree.object_answer (RemoteTree.object_edit _ fun he => hl (he ▸ List.prefix_rfl))
  sftpRename _ _ _ _ hl hl' :=
    RemoteTree.object_answer (RemoteTree.object_move (fun h => hl (.inl h)) (fun h => hl (.inr h))
      (fun h => hl' (.inl h)) fun h => hl' (.inr h))
  sftpMkdir _ _ _ _ hl :=
    RemoteTree.object_answer (RemoteTree.object_add _ (fun h => hl (.inl h)) fun h => hl (.inr h))
  sftpRmdir _ _ _ hl :=
    RemoteTree.object_answer (RemoteTree.object_drop (fun h => hl (.inl h)) fun h => hl (.inr h))
  sftpUnlink _ _ _ hl :=
    RemoteTree.object_answer (RemoteTree.object_drop (fun h => hl (.inl h)) fun h => hl (.inr h))
  sftpUtimes _ _ _ _ _ hl := RemoteTree.object_answer (RemoteTree.object_edit _ fun he => hl (he ▸ List.prefix_rfl))

/-- A host with an empty directory `/srv`. -/
def srvTree : RemoteTree := ⟨[([], .new true 0o755), ([text "srv"], .new true 0o755)], []⟩

/-- A file is made, written, protected and renamed into a directory made for it. Another one comes and goes. -/
def treeCalls : List FuseCall :=
  [⟨.plain, .create ⟨text "/a", by decide⟩ 0o644⟩, ⟨.plain, .write ⟨text "/a", by decide⟩ (text "hello") 5 0⟩,
    ⟨.plain, .chmod ⟨text "/a", by decide⟩ 0o600⟩, ⟨.plain, .mkdir ⟨text "/d", by decide⟩ 0o755⟩,
    ⟨.plain, .rename ⟨text "/a", by decide⟩ ⟨text "/d/a", by decide⟩⟩, ⟨.plain, .create ⟨text "/b", by decide⟩ 0o644⟩,
    ⟨.plain, .unlink ⟨text "/b", by decide⟩⟩]

end MGFileSystem
