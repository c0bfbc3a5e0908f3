/-
Nvl/StaticLink/System.lean

The static proxy as one system: an application's requests, the client library
they go through, the command queue, and the shadow process at the other end.

`hcq_cmd_issue` blocks its caller until the command has been returned, so at
most one command is in flight and the queue is a hand-over: the server fetches
the command in its next round, and the client goes on with the first reply of
that round.  A round without a reply leaves the client waiting for ever
(`World.waiting`); nothing the code does can wake it up.  In none of the cases
the client can reach does the server change its state after replying, so a
round is one step.

`World.log` is the history: the commands issued, and every call the server
made, in order.  What reaches the device is read off this log.
-/
import Nvl.StaticLink.Client
import Nvl.StaticLink.Server

namespace Nvl.StaticLink

open SysLib

/-! ### The world -/

/-- The two devices an application opens through `__wrap_open`. -/
inductive Device
  | kgni
  | pmi
  deriving DecidableEq

/-- The descriptor under which the client knows a device. -/
def Device.fd (c : Client) : Device → Int
  | kgni => c.clientFd
  | pmi => c.pmiFd

/-- One ioctl of the application, with what the outside answers while it is
carried out.  The answers of the queue come from the system, not from here. -/
structure Event where
  device : Device
  request : Request
  clientEnv : (o : ClientCall) → o.Ans
  serverEnv : (o : ServerCall) → o.Ans

/-- What the log records. -/
inductive Entry
  | issued (cmd : Cmd)
  | server (c : Σ o : ServerCall, o.Ans)

/-- Both processes and the queue between them.  `ret` is the data of the last
reply, `waiting` the command the client is blocked on. -/
structure World where
  client : Client
  server : Server
  running : Bool
  waiting : Option Nat
  nextCmd : Nat
  ret : Bytes
  log : List Entry

/-- The server's answers, with the command it is about to fetch. -/
def fetching (cmd : Cmd) (env : (o : ServerCall) → o.Ans) : (o : ServerCall) → o.Ans
  | .hcqGetNextCmd => cmd
  | o => env o

/-- The data of a reply to command `id`. -/
def replyTo (id : Nat) : (Σ o : ServerCall, o.Ans) → Option Bytes
  | ⟨.hcqCmdReturn cmd _ data, _⟩ => if cmd = id then some data else none
  | _ => none

/-- `hcq_cmd_issue`: the command is queued, the server (if it still runs) serves
it, and the caller goes on with the first reply. -/
def World.issue (w : World) (env : (o : ServerCall) → o.Ans) (code : UInt64) (data : Bytes) :
    Option Nat × World :=
  let cmd : Cmd := ⟨w.nextCmd, code, data⟩
  let queued := { w with nextCmd := w.nextCmd + 1, log := w.log ++ [Entry.issued cmd] }
  if w.running then
    let round := (serve w.server).exec (fetching cmd env)
    let served := { queued with
      server := round.1.server, running := round.1.goesOn,
      log := queued.log ++ round.2.map Entry.server }
    match round.2.findSome? (replyTo cmd.id) with
    | some data => (some cmd.id, { served with ret := data })
    | none => (none, { served with waiting := some cmd.id })
  else (none, { queued with waiting := some cmd.id })

/-- How the system answers the calls of the client. -/
def handler (e : Event) : (o : ClientCall) → World → Option o.Ans × World
  | .hcqCmdIssue code data, w => w.issue e.serverEnv code data
  | .hcqGetRetData cmd, w => (some cmd, w)
  | .retData _, w => (some w.ret, w)
  | .hcqCmdComplete _, w => (some (), w)
  | o, w => (some (e.clientEnv o), w)

/-- One ioctl.  The second component is what the caller gets back, `none` when
the call does not return; a client that waits makes no further calls. -/
def World.ioctl (w : World) (e : Event) : World × Option (Request × Int) :=
  if w.waiting.isSome then (w, none)
  else
    match (wrapIoctl w.client (e.device.fd w.client) e.request).run (handler e) w with
    | (some (c, r, v), w') => ({ w' with client := c }, some (r, v))
    | (none, w') => (w', none)

/-- A sequence of ioctls. -/
def World.run (w : World) (es : List Event) : World :=
  es.foldl (fun w e => (w.ioctl e).1) w

@[simp] theorem World.run_nil (w : World) : w.run [] = w := rfl

@[simp] theorem World.run_cons (w : World) (e : Event) (es : List Event) :
    w.run (e :: es) = (w.ioctl e).1.run es := rfl

theorem World.run_append (w : World) (es fs : List Event) :
    w.run (es ++ fs) = (w.run es).run fs := List.foldl_append ..

/-- Both processes are up, with empty lists, and no collective was made. -/
structure World.Initial (w : World) : Prop where
  clientList : w.client.mt = listNew
  serverList : w.server.mt = listNew
  noGather : w.server.gather.alreadyCalled = false
  running : w.running = true
  notWaiting : w.waiting = none
  noLog : w.log = []

/-! ### Reading the log -/

/-- A call that reached the device. -/
def deviceCallIn : (Σ o : ServerCall, o.Ans) → Option DeviceCall
  | ⟨.ioctl c, _⟩ => some c
  | _ => none

/-- What happens to a command. -/
inductive QueueEvent
  | issued (cmd : Cmd)
  | fetched (cmd : Cmd)
  | returned (id : Nat)
  deriving DecidableEq

/-- A call of the server on the queue. -/
def queueEventIn : (Σ o : ServerCall, o.Ans) → Option QueueEvent
  | ⟨.hcqGetNextCmd, cmd⟩ => some (.fetched cmd)
  | ⟨.hcqCmdReturn id _ _, _⟩ => some (.returned id)
  | _ => none

def Entry.deviceCall : Entry → Option DeviceCall
  | .issued _ => none
  | .server c => deviceCallIn c

def Entry.queueEvent : Entry → Option QueueEvent
  | .issued cmd => some (.issued cmd)
  | .server c => queueEventIn c

/-- The calls that have reached the device, in order. -/
def World.deviceLog (w : World) : List DeviceCall := w.log.filterMap Entry.deviceCall

/-- The history of the queue. -/
def World.queueLog (w : World) : List QueueEvent := w.log.filterMap Entry.queueEvent

/-- A device call that returned a negative status. -/
def Entry.Failed : Entry → Prop
  | .server ⟨.ioctl _, answer⟩ => answer.1 < 0
  | _ => False

/-- The device call made for a request failed: some entry it added to the log
is a failed call. -/
def World.DeviceFailed (w : World) (e : Event) : Prop :=
  ∃ x ∈ (w.ioctl e).1.log.drop w.log.length, x.Failed

theorem deviceCalls_map_server (tr : Prog.Trace ServerCall ServerCall.Ans) :
    (tr.map Entry.server).filterMap Entry.deviceCall = tr.filterMap deviceCallIn :=
  List.filterMap_map

theorem queueEvents_map_server (tr : Prog.Trace ServerCall ServerCall.Ans) :
    (tr.map Entry.server).filterMap Entry.queueEvent = tr.filterMap queueEventIn :=
  List.filterMap_map

/-! ### A concrete outside

Used to evaluate the system on fixed inputs. -/

/-- A device that hands every argument back unchanged. -/
def DeviceCall.echo : (c : DeviceCall) → c.Out
  | .nicSetattr a => a
  | .memRegister a => a
  | .postRdma _ _ => ()
  | .cqCreate a => a
  | .nicFmaConfig a => a

/-- Every call of the client succeeds, and `xemem_make` returns `segid`. -/
def calmClient (segid : UInt64) : (o : ClientCall) → o.Ans
  | .malloc => true
  | .mallocInt => 0
  | .xememMake _ _ => segid
  | .xememLookupSegid _ => 1
  | .xememGet _ _ => 1
  | .xememAttachNocache _ _ _ => 0x1000
  | .xememRelease _ => ()
  | .xememRemove _ => ()
  | .hcqCmdIssue _ _ => 0
  | .hcqGetRetData _ => 0
  | .retData _ => []
  | .hcqCmdComplete _ => ()
  | .realIoctl _ _ => 0

/-- Every call of the server of a one-rank job succeeds, except that the device
returns `status`; `xemem_attach` returns `addr`. -/
def calmServer (addr : UInt64) (status : Int) : (o : ServerCall) → o.Ans
  | .select => 1
  | .hcqGetNextCmd => ⟨0, 0, []⟩
  | .malloc _ => true
  | .mallocOut => some fun _ => 0
  | .xememMake _ _ _ => 1
  | .xememGet _ => 1
  | .xememAttach _ _ => addr
  | .xememRelease _ => ()
  | .ioctl c => (status, c.echo)
  | .pmiGetRank => (true, 0)
  | .pmiGetSize => (true, 1)
  | .pmiAllgather _ data _ => (true, data)
  | .pmiFinalize => ()
  | .posixMemalign _ => (true, 0x1000)
  | .hcqCmdReturn _ _ _ => ()

/-- Both processes right after they started. -/
def freshWorld : World where
  client := ⟨listNew, 0, 0, 120, 121⟩
  server := {
    mt := listNew, nicSetAttr := default, postAttr := default, postDesc := default
    jobSize := 1, myRank := 0, gather := ⟨false, [], 0⟩
    alpsCookie := 7, alpsPtag := 8, instanceId := 9, postDescPtr := 0x7000 }
  running := true
  waiting := none
  nextCmd := 0
  ret := []
  log := []

theorem freshWorld_initial : freshWorld.Initial := ⟨rfl, rfl, rfl, rfl, rfl, rfl⟩

end Nvl.StaticLink
