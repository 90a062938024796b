import MGFileSystem.Ssh.TrackedSession

/-! `FSmanager::check_storage_nodes`: one command on every storage node, whose answer is read in
chunks into one buffer and copied to the standard output. -/
namespace MGFileSystem
open HandleLog Tracked

structure StorageNode where
  ip : Bytes
  reachable : Bool
  responsive : Bool
  fsAvailable : Bool
  deriving DecidableEq, Repr

namespace StorageNode

/-- `_reachable` and `_responsive`, which every branch sets together. -/
def mark (node : StorageNode) (up : Bool) : StorageNode := { node with reachable := up, responsive := up }

/-- What the first byte of the buffer says about the node. -/
def judge (node : StorageNode) (b : Byte) : StorageNode :=
  if b = 48 then node.mark true
  else if b = 49 then node.mark false
  else node

end StorageNode

/-- What one `ssh_channel_read` with a positive result puts into the buffer. -/
structure ReadChunk where
  data : Bytes
  data_ne : data ≠ []
  fits : data.length ≤ 256
  deriving DecidableEq

/-- How libssh behaves on the session of one node. -/
structure NodeSession where
  /-- Whether `ssh_channel_new` returns a channel. -/
  channelNew : Bool
  openSession : Int
  requestExec : Int
  /-- The reads with a positive result, and the result of the read after them. -/
  reads : List ReadChunk
  lastRead : Int
  ended : lastRead ≤ 0

/-- A node with its session, and what lies in `buffer` when its turn comes. -/
structure Watched where
  node : StorageNode
  session : NodeSession
  buffer : Memory

/-- The local variables of the read loop. -/
structure Reading where
  node : StorageNode
  reads : List ReadChunk
  buffer : Memory
  nbytes : Int

/-- What a read leaves in them. The read after the answer leaves the buffer as it was. -/
def Reading.next (r : Reading) (session : NodeSession) : Reading :=
  match r.reads with
  | [] => { r with nbytes := session.lastRead }
  | c :: reads =>
    { r with reads := reads, buffer := c.data ++ r.buffer.drop c.data.length, nbytes := c.data.length }

/-- The number of `write(1, ...)` calls so far. -/
abbrev Stdout := Nat

section Libssh
variable (session : NodeSession) (channel : Numbered Unit)

def sshChannelNew : Method (Tracked Stdout) (Option (Numbered Unit)) :=
  issuing fun calls => (if session.channelNew then some () else none, calls)

def sshChannelOpenSession : Method (Tracked Stdout) Int := do
  note (.pass .sshChannelOpenSession (some channel.number))
  return session.openSession

def sshChannelRequestExec : Method (Tracked Stdout) Int := do
  note (.pass .sshChannelRequestExec (some channel.number))
  return session.requestExec

/-- `ssh_channel_read` into `buffer`. -/
def sshChannelRead (r : Reading) : Method (Tracked Stdout) Reading := do
  note (.pass .sshChannelRead (some channel.number))
  return r.next session

def sshChannelSendEof : Method (Tracked Stdout) Unit := note (.pass .sshChannelSendEof (some channel.number))

def sshChannelClose : Method (Tracked Stdout) Unit := note (.pass .sshChannelClose (some channel.number))

def sshChannelFree : Method (Tracked Stdout) Unit := note (.release (some channel.number))

variable (t : Tracked Stdout)

@[simp] theorem run_sshChannelOpenSession : (sshChannelOpenSession session channel).run t =
    .ok session.openSession ⟨t.session, .pass .sshChannelOpenSession (some channel.number) :: t.log⟩ := rfl

@[simp] theorem run_sshChannelRequestExec : (sshChannelRequestExec session channel).run t =
    .ok session.requestExec ⟨t.session, .pass .sshChannelRequestExec (some channel.number) :: t.log⟩ := rfl

@[simp] theorem run_sshChannelRead (r : Reading) : (sshChannelRead session channel r).run t =
    .ok (r.next session) ⟨t.session, .pass .sshChannelRead (some channel.number) :: t.log⟩ := rfl

end Libssh

/-- `out k n` is the result of the `k`-th `write(1, buffer, n)`. -/
def write (out : Nat → Nat → Int) (n : Nat) : Method (Tracked Stdout) Int :=
  onSession fun calls => (out calls n, calls + 1)

section Check
variable (out : Nat → Nat → Int)

/-- The loop `while (nbytes > 0)`, for a number of rounds. A write that fails gives the channel up and goes on
with the same loop. -/
def readLoop (session : NodeSession) (channel : Numbered Unit) : Nat → Reading → Method (Tracked Stdout) Reading
  | 0, _ => throw .outOfRounds
  | rounds + 1, r => do
    if r.nbytes > 0 then
      if (← write out r.nbytes.toNat) ≠ r.nbytes then
        sshChannelClose channel
        sshChannelFree channel
        readLoop session channel rounds { r with node := r.node.mark false }
      else
        readLoop session channel rounds (← sshChannelRead session channel r)
    else return r

/-- What follows the read loop. -/
def finishCheck (channel : Numbered Unit) (r : Reading) : Method (Tracked Stdout) StorageNode := do
  if r.nbytes < 0 then
    sshChannelClose channel
    sshChannelFree channel
    return r.node.mark false
  let node := r.node.judge (r.buffer.headD 0)
  sshChannelSendEof channel
  sshChannelClose channel
  sshChannelFree channel
  return node

/-- The body of the loop over the nodes. -/
def checkNode (rounds : Nat) (w : Watched) : Method (Tracked Stdout) StorageNode := do
  match ← sshChannelNew w.session with
  | none => return w.node.mark false
  | some channel =>
    if (← sshChannelOpenSession w.session channel) ≠ SSH_OK then
      sshChannelFree channel
      return w.node.mark false
    if (← sshChannelRequestExec w.session channel) ≠ SSH_OK then
      sshChannelClose channel
      sshChannelFree channel
      return w.node.mark false
    let r ← sshChannelRead w.session channel
      { node := w.node, reads := w.session.reads, buffer := w.buffer, nbytes := 0 }
    finishCheck channel (← readLoop out w.session channel rounds r)

def checkStorageNodes (rounds : Nat) : List Watched → Method (Tracked Stdout) (List StorageNode)
  | [] => return []
  | w :: ws => do
    let node ← checkNode out rounds w
    return node :: (← checkStorageNodes rounds ws)

end Check
end MGFileSystem
