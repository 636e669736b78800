import Getty.Verified.ThreadPool
import Getty.Transport.Basic
import Mathlib.Logic.Function.Basic

/-!
# One session: run, close, write and reset

All goroutines that touch one session, with every section under `s.lock`,
`packetLock` or `resetLock`, every wait group operation and every entry or exit
of a callback a step of its own: `run`, the read loop and the `OnMessage` tasks it
queues, heartbeat firings, the writes, `Close`, the close callbacks, `gc` with its
connection cleanup, the reset requests and the reset worker.

A reset replaces `once`, `done` and `lifecycle` by new ones.  The model numbers
these generations: `gens g` holds the three objects of generation `g`, and a
goroutine that has captured one of them names the generation it belongs to.

`sync.RWMutex` and `sync.WaitGroup` are modelled by their counters; a blocked
operation has no step.  Deadlines, activity stamps and package counters influence
nothing here and are left out, and a section that only reads the connection in
order to close or arm the socket belongs to the step after it.
-/

namespace Getty.Transport.Session

open Getty.Verified.ThreadPool

/-! ## State -/

/-- The objects of one generation: whether `done` is closed, the `once`, and the
lifecycle with its `closed` flag and the count of its wait group.  The other
fields are ghosts: the progress of the close-callback goroutine and of the
connection cleanup, whether the generation got a connection, the attributes it
carries, how often the body of `stop` was entered, how often it called
`runReconnect`, and whether a `stop` call has returned. -/
structure Gen where
  done : Bool
  once : Once
  closed : Bool
  count : Int
  callbacks : Once
  cleanup : Once
  installed : Bool
  carried : Attrs
  bodies : Nat
  reconnects : Nat
  returned : Bool
  deriving Repr, DecidableEq

/-- A generation as `newSession` and the reset worker create it. -/
def Gen.fresh : Gen :=
  ⟨false, .fresh, false, 0, .fresh, .fresh, false, ⟨false, none⟩, 0, 0, false⟩

/-- The user installs a connection and sets the attributes. -/
def Gen.carry (a : Attrs) (x : Gen) : Gen := { x with installed := true, carried := a }

/-- What the user installs before `run`; `endPoint` says whether the end point has
a task pool. -/
structure Config where
  attrs : Attrs
  endPoint : Option Bool
  listener : Bool
  writer : Bool
  deriving Repr, DecidableEq

/-- The session.  A connection is named by the generation it was installed in,
`timer` by the one whose heartbeat it drives, and `wheel g` counts the timers of
generation `g` in the timer wheel.  `resetRun` holds the requests of the running
reset worker. -/
structure Shared where
  gen : Nat
  gens : Nat → Gen
  conn : Option Nat
  listener : Bool
  writer : Bool
  endPoint : Option Bool
  attrs : Option Attrs
  timer : Option Nat
  wheel : Nat → Nat
  grWG : Int
  callbackDepth : Int
  readers : Nat
  writing : Bool
  resetRun : Option (List Nat)
  nextRequest : Nat
  results : List (Nat × Bool)

def Shared.init (cfg : Config) : Shared where
  gen := 0
  gens g := if g = 0 then Gen.fresh.carry cfg.attrs else Gen.fresh
  conn := some 0
  listener := cfg.listener
  writer := cfg.writer
  endPoint := cfg.endPoint
  attrs := some cfg.attrs
  timer := none
  wheel _ := 0
  grWG := 0
  callbackDepth := 0
  readers := 0
  writing := false
  resetRun := none
  nextRequest := 0
  results := []

/-! ## Threads -/

/-- What follows a `stop` call: nothing, the rest of a failed `run`, of the read
loop's shutdown, of a heartbeat whose `OnCron` panicked, or of a reset. -/
inductive Cont where
  | close
  | opening
  | shutdown (err : Bool)
  | cron (l : Nat)
  | reset
  deriving Repr, DecidableEq

/-- `stop`; `g` is the generation of the `once` it read, `l` the lifecycle and `t`
the timer that `stopHeartbeat` took. -/
inductive StopPc where
  | readOnce
  | doOnce (g : Nat)
  | closeDone (g : Nat)
  | takeTimer (g : Nat)
  | stopTimer (g l : Nat) (t : Option Nat)
  | closeLifecycle (g l : Nat)
  | closeCallbacks (g l : Nat)
  | attrClient (g : Nat)
  | attrIgnore (g : Nat) (found : Bool)
  | runReconnect (g : Nat)
  | finish (g : Nat)
  deriving Repr, DecidableEq

/-- Who called `gc`. -/
inductive GcCont where
  | opening
  | shutdown
  | reset (l : Nat)
  deriving Repr, DecidableEq

inductive RunPc where
  | register
  | check
  | onOpen
  | inOpen
  | install
  | start
  | exit
  deriving Repr, DecidableEq

/-- The read loop, and what `handlePackage` does after it. -/
inductive ReadPc where
  | loop
  | decode
  | decoding
  | addTask
  | onError
  | inError
  | onClose
  | inClose
  | exit
  deriving Repr, DecidableEq

/-- An `OnMessage` task. -/
inductive TaskPc where
  | acquire
  | closedCheck
  | listener
  | inMessage
  | release (panicked : Bool)
  deriving Repr, DecidableEq

/-- A heartbeat firing. -/
inductive CronPc where
  | fire
  | acquire
  | snapshot
  | onCron
  | inCron
  | rawClose
  | release
  deriving Repr, DecidableEq

/-- `WritePkg` with or without a timeout, `WriteBytes` above or below
`maxPacketLen`, `WriteBytesArray` on ws or tcp, and `Send`. -/
inductive WriteKind where
  | pkg (timeout : Bool)
  | bytes (large : Bool)
  | batch (ws : Bool)
  | send
  deriving Repr, DecidableEq

/-- The call takes `packetLock` for writing. -/
def WriteKind.exclusive : WriteKind → Bool
  | .pkg timeout => timeout
  | .bytes large => large
  | .batch ws => ws
  | .send => false

/-- A write; `l` is the lifecycle it has acquired, `c` the connection it sends to,
and `g` the generation in which it got `packetLock`. -/
inductive WritePc where
  | closedCheck
  | snapshot
  | acquire (l : Nat)
  | encode (l : Nat)
  | encoding (l : Nat)
  | connFirst
  | lock (l c : Option Nat)
  | conn (l : Option Nat) (g : Nat)
  | send (l : Option Nat) (c g : Nat)
  | unlock (l : Option Nat) (g : Nat)
  | release (l : Nat)
  deriving Repr, DecidableEq

/-- The close-callback goroutine. -/
inductive CallbacksPc where
  | enter
  | inside
  | release
  deriving Repr, DecidableEq

/-- The goroutine of `gc` that closes the connection. -/
inductive CleanupPc where
  | closeConn
  | release
  deriving Repr, DecidableEq

inductive ResetKind where
  | reset
  | tryReset
  | resetAsync
  deriving Repr, DecidableEq

/-- The reset worker after its `stop`; `l` is the lifecycle it waits for.  It
delivers nil after it has cleared generation `l`, and an error after a panic. -/
inductive WorkerPc where
  | closeConn
  | takeTimer
  | stopTimer (l : Nat) (t : Option Nat)
  | closeLifecycle (l : Nat)
  | waitGr (l : Nat)
  | waitLifecycle (l : Nat)
  | lock (l : Nat)
  | clear (l : Nat)
  | unlock (l : Nat)
  | deliver (cleared : Option Nat)
  deriving Repr, DecidableEq

/-- The goroutines.  An `OnMessage` task runs on the task pool or inline, in the
read loop; `reuse` is the user preparing a session that was reset. -/
inductive Thread where
  | stop (pc : StopPc) (k : Cont)
  | gc (k : GcCont)
  | run (pc : RunPc)
  | read (pc : ReadPc)
  | task (l : Nat) (inline : Bool) (pc : TaskPc)
  | cron (l : Nat) (pc : CronPc)
  | write (k : WriteKind) (pc : WritePc)
  | callbacks (l : Nat) (pc : CallbacksPc)
  | cleanup (l : Nat) (pc : CleanupPc)
  | reset (k : ResetKind)
  | request (wait : Bool)
  | await (id : Nat)
  | worker (pc : WorkerPc)
  | reuse (cfg : Config)
  deriving Repr, DecidableEq

/-- The outcomes of a step: the shared state and the threads after it. -/
abbrev Outcomes := List (Shared × List Thread)

/-! ## Updates of one generation -/

/-- The body of `stop` begins. -/
def Gen.begin (x : Gen) : Gen := { x with once := .running, bodies := x.bodies + 1 }

/-- `close(s.done)`. -/
def Gen.setDone (x : Gen) : Gen := { x with done := true }

/-- `lifecycle.close()`. -/
def Gen.close (x : Gen) : Gen := { x with closed := true }

/-- `lifecycle.addClosingTask()` for the close callbacks. -/
def Gen.startCallbacks (x : Gen) : Gen := { x with count := x.count + 1, callbacks := .running }

/-- The close callbacks have returned. -/
def Gen.endCallbacks (x : Gen) : Gen := { x with callbacks := .finished }

/-- `lifecycle.addClosingTask()` for the connection. -/
def Gen.startCleanup (x : Gen) : Gen := { x with count := x.count + 1, cleanup := .running }

/-- `CloseConn` has returned. -/
def Gen.endCleanup (x : Gen) : Gen := { x with cleanup := .finished }

/-- `lifecycle.acquire()` on an open lifecycle. -/
def Gen.acquire (x : Gen) : Gen := { x with count := x.count + 1 }

/-- `lifecycle.release()`. -/
def Gen.release (x : Gen) : Gen := { x with count := x.count - 1 }

/-- The body of `stop` calls `runReconnect`. -/
def Gen.reconnect (x : Gen) : Gen := { x with reconnects := x.reconnects + 1 }

/-- A `stop` call returns. -/
def Gen.ret (x : Gen) : Gen := { x with returned := true }

/-- The body of `stop` ends, and the call that ran it returns. -/
def Gen.finish (x : Gen) : Gen := { x with once := .finished, returned := true }

/-! ## Updates of the session -/

def Shared.modGen (s : Shared) (g : Nat) (f : Gen → Gen) : Shared :=
  { s with gens := Function.update s.gens g (f (s.gens g)) }

/-- The current generation. -/
def Shared.cur (s : Shared) : Gen := s.gens s.gen

/-- A callback is entered. -/
def Shared.enter (s : Shared) : Shared := { s with callbackDepth := s.callbackDepth + 1 }

/-- A callback returns or panics. -/
def Shared.leave (s : Shared) : Shared := { s with callbackDepth := s.callbackDepth - 1 }

def Shared.addGr (s : Shared) (n : Int) : Shared := { s with grWG := s.grWG + n }

/-- `packetLock` can be taken. -/
def Shared.canLock (s : Shared) (exclusive : Bool) : Bool :=
  !s.writing && (!exclusive || s.readers == 0)

def Shared.lockPacket (s : Shared) (exclusive : Bool) : Shared :=
  if exclusive then { s with writing := true } else { s with readers := s.readers + 1 }

def Shared.unlockPacket (s : Shared) (exclusive : Bool) : Shared :=
  if exclusive then { s with writing := false } else { s with readers := s.readers - 1 }

/-- The section of `stopHeartbeat`. -/
def Shared.takeTimer (s : Shared) : Shared := { s with timer := none }

/-- `timer.Stop()`. -/
def Shared.stopTimer (s : Shared) : Option Nat → Shared
  | none => s
  | some g => { s with wheel := Function.update s.wheel g (s.wheel g - 1) }

/-- `run` installs the heartbeat timer. -/
def Shared.installTimer (s : Shared) : Shared :=
  { s with
    timer := some s.gen
    wheel := Function.update s.wheel s.gen (s.wheel s.gen + 1) }

/-- `gc` erases the attributes and takes the connection. -/
def Shared.detach (s : Shared) : Shared := { s with attrs := none, conn := none }

/-- The reset worker clears the fields. -/
def Shared.clear (s : Shared) : Shared :=
  { s with
    gen := s.gen + 1
    conn := none
    listener := false
    writer := false
    endPoint := none
    attrs := some ⟨false, none⟩
    timer := none }

/-- The user prepares the session for another `run`. -/
def Shared.prepare (s : Shared) (cfg : Config) : Shared :=
  { s with
    conn := some s.gen
    listener := cfg.listener
    writer := cfg.writer
    endPoint := cfg.endPoint
    attrs := some cfg.attrs }

/-- `ResetAsync` adds a request, to the running worker or to a new one. -/
def Shared.request (s : Shared) : Shared :=
  { s with
    resetRun := some (s.resetRun.getD [] ++ [s.nextRequest])
    nextRequest := s.nextRequest + 1 }

/-- The worker delivers its result to all its requests. -/
def Shared.deliver (s : Shared) (ok : Bool) : Shared :=
  { s with
    results := (s.resetRun.getD []).map (fun id => (id, ok)) ++ s.results
    resetRun := none }

/-! ## Steps -/

/-- What follows the return of `stop`. -/
def afterStop : Cont → List Thread
  | .close => []
  | .opening => [.gc .opening]
  | .shutdown err => if err then [.read .onError] else [.read .onClose]
  | .cron l => [.cron l .rawClose]
  | .reset => [.worker .closeConn]

/-- `stop`. -/
def stopStep (s : Shared) (k : Cont) : StopPc → Outcomes
  | .readOnce => [(s, [.stop (.doOnce s.gen) k])]
  | .doOnce g =>
      match (s.gens g).once with
      | .fresh => [(s.modGen g Gen.begin, [.stop (.closeDone g) k])]
      | .running => []
      | .finished => [(s.modGen g Gen.ret, afterStop k)]
  | .closeDone g => [(s.modGen s.gen Gen.setDone, [.stop (.takeTimer g) k])]
  | .takeTimer g => [(s.takeTimer, [.stop (.stopTimer g s.gen s.timer) k])]
  | .stopTimer g l t => [(s.stopTimer t, [.stop (.closeLifecycle g l) k])]
  | .closeLifecycle g l => [(s.modGen l Gen.close, [.stop (.closeCallbacks g l) k])]
  | .closeCallbacks g l =>
      [(s.modGen l Gen.startCallbacks, [.stop (.attrClient g) k, .callbacks l .enter])]
  | .attrClient g => [(s, [.stop (.attrIgnore g ((s.attrs.map Attrs.client).getD false)) k])]
  | .attrIgnore g found =>
      if found ∧ s.attrs.bind Attrs.ignoreReconnect = some false then
        [(s, [.stop (.runReconnect g) k])]
      else [(s, [.stop (.finish g) k])]
  | .runReconnect g => [(s.modGen g Gen.reconnect, [.stop (.finish g) k])]
  | .finish g => [(s.modGen g Gen.finish, afterStop k)]

/-- What follows `gc`. -/
def afterGc : GcCont → Thread
  | .opening => .run .exit
  | .shutdown => .read .exit
  | .reset l => .worker (.waitLifecycle l)

/-- `gc`: the first call takes the connection and starts its cleanup. -/
def gcStep (s : Shared) (k : GcCont) : Outcomes :=
  match s.attrs, s.conn with
  | some _, some _ =>
      [((s.modGen s.gen Gen.startCleanup).detach, [afterGc k, .cleanup s.gen .closeConn])]
  | some _, none => [(s.detach, [afterGc k])]
  | none, _ => [(s, [afterGc k])]

/-- `run`.  A panic, for lack of a connection, listener or writer or because the
timer wheel refused the heartbeat, still releases `grWG`. -/
def runStep (s : Shared) : RunPc → Outcomes
  | .register =>
      match s.resetRun with
      | some _ => [(s, [])]
      | none => [(s.addGr 1, [.run .check])]
  | .check =>
      if s.conn.isSome ∧ s.listener ∧ s.writer then [(s, [.run .onOpen])] else [(s, [.run .exit])]
  | .onOpen => [(s.enter, [.run .inOpen])]
  | .inOpen => [(s.leave, [.run .install]), (s.leave, [.stop .readOnce .opening])]
  | .install =>
      if s.cur.done then [(s, [.run .start])]
      else [(s.installTimer, [.run .start]), (s, [.run .exit])]
  | .start => [(s.addGr 1, [.run .exit, .read .loop])]
  | .exit => [(s.addGr (-1), [])]

/-- The read goroutine. -/
def readStep (s : Shared) : ReadPc → Outcomes
  | .loop =>
      -- bytes to decode, or the end of the loop without or with an error
      [(s, [.read .decode]), (s, [.stop .readOnce (.shutdown false)]),
        (s, [.stop .readOnce (.shutdown true)])]
  | .decode => [(s.enter, [.read .decoding])]
  | .decoding =>
      [(s.leave, [.read .loop]), (s.leave, [.read .addTask]),
        (s.leave, [.stop .readOnce (.shutdown false)])]
  | .addTask =>
      if s.endPoint = some true then [(s, [.read .loop, .task s.gen false .acquire])]
      else [(s, [.task s.gen true .acquire])]
  | .onError =>
      if s.listener then [(s.enter, [.read .inError])] else [(s, [.read .onClose])]
  | .inError => [(s.leave, [.read .onClose])]
  | .onClose => if s.listener then [(s.enter, [.read .inClose])] else [(s, [.gc .shutdown])]
  | .inClose => [(s.leave, [.gc .shutdown])]
  | .exit => [(s.addGr (-1), [])]

/-- What follows a task: the read loop goes on after an inline one, or shuts down
when the callback has panicked. -/
def afterTask (inline panicked : Bool) : List Thread :=
  if inline then
    if panicked then [.stop .readOnce (.shutdown false)] else [.read .loop]
  else []

/-- The task that `addTask` queues. -/
def taskStep (s : Shared) (l : Nat) (inline : Bool) : TaskPc → Outcomes
  | .acquire =>
      if (s.gens l).closed then [(s, afterTask inline false)]
      else [(s.modGen l Gen.acquire, [.task l inline .closedCheck])]
  | .closedCheck =>
      if s.cur.done then [(s, [.task l inline (.release false)])]
      else [(s, [.task l inline .listener])]
  | .listener =>
      if s.listener then [(s.enter, [.task l inline .inMessage])]
      else [(s, [.task l inline (.release false)])]
  | .inMessage =>
      [(s.leave, [.task l inline (.release false)]), (s.leave, [.task l inline (.release true)])]
  | .release panicked => [(s.modGen l Gen.release, afterTask inline panicked)]

/-- `heartbeat`. -/
def cronStep (s : Shared) (l : Nat) : CronPc → Outcomes
  | .fire => if s.endPoint.isSome then [(s, [.cron l .acquire])] else [(s, [])]
  | .acquire =>
      if (s.gens l).closed then [(s, [])] else [(s.modGen l Gen.acquire, [.cron l .snapshot])]
  | .snapshot =>
      if s.conn.isSome ∧ s.listener then [(s, [.cron l .onCron])] else [(s, [.cron l .release])]
  | .onCron => [(s.enter, [.cron l .inCron])]
  | .inCron => [(s.leave, [.cron l .release]), (s.leave, [.stop .readOnce (.cron l)])]
  | .rawClose => [(s, [.cron l .release])]
  | .release => [(s.modGen l Gen.release, [])]

/-- Where a write goes on when the session is not closed. -/
def WriteKind.opened : WriteKind → WritePc
  | .pkg _ => .snapshot
  | .bytes _ => .lock none none
  | .batch _ => .connFirst
  | .send => .lock none none

/-- The writes.  `WriteBytesArray` looks at the connection before it takes
`packetLock`, and leaves a batch on UDP to `WriteBytes`; the others look at it
under the lock. -/
def writeStep (s : Shared) (k : WriteKind) : WritePc → Outcomes
  | .closedCheck => if s.cur.done then [(s, [])] else [(s, [.write k k.opened])]
  | .snapshot => [(s, [.write k (.acquire s.gen)])]
  | .acquire l =>
      if (s.gens l).closed then [(s, [])]
      else [(s.modGen l Gen.acquire, [.write k (.encode l)])]
  | .encode l => [(s.enter, [.write k (.encoding l)])]
  | .encoding l =>
      [(s.leave, [.write k (.lock (some l) none)]), (s.leave, [.write k (.release l)])]
  | .connFirst =>
      match s.conn with
      | none => [(s, [])]
      | some c =>
          [(s, [.write k (.lock none (some c))]), (s, [.write (.bytes false) .closedCheck]),
            (s, [.write (.bytes true) .closedCheck])]
  | .lock l c =>
      if s.canLock k.exclusive then
        match c with
        | none => [(s.lockPacket k.exclusive, [.write k (.conn l s.gen)])]
        | some c => [(s.lockPacket k.exclusive, [.write k (.send l c s.gen)])]
      else []
  | .conn l g =>
      match s.conn with
      | none => [(s, [.write k (.unlock l g)])]
      | some c => [(s, [.write k (.send l c g)])]
  | .send l _ g => [(s, [.write k (.unlock l g)])]
  | .unlock l _ =>
      match l with
      | none => [(s.unlockPacket k.exclusive, [])]
      | some l => [(s.unlockPacket k.exclusive, [.write k (.release l)])]
  | .release l => [(s.modGen l Gen.release, [])]

/-- `Reset`, `TryReset` and `ResetAsync` up to the request. -/
def resetStep (s : Shared) : ResetKind → Outcomes
  | .reset => [(s, [.request (s.callbackDepth ≤ 0)])]
  | .tryReset => if 0 < s.callbackDepth then [(s, [])] else [(s, [.request true])]
  | .resetAsync => [(s, [.request false])]

/-- The section of `ResetAsync`. -/
def requestStep (s : Shared) (wait : Bool) : Outcomes :=
  let waiter := if wait then [.await s.nextRequest] else []
  match s.resetRun with
  | some _ => [(s.request, waiter)]
  | none => [(s.request, .stop .readOnce .reset :: waiter)]

/-- The reset worker.  Closing the connection is foreign code and may panic. -/
def workerStep (s : Shared) : WorkerPc → Outcomes
  | .closeConn =>
      if s.conn.isSome then [(s, [.worker .takeTimer]), (s, [.worker (.deliver none)])]
      else [(s, [.worker .takeTimer])]
  | .takeTimer => [(s.takeTimer, [.worker (.stopTimer s.gen s.timer)])]
  | .stopTimer l t => [(s.stopTimer t, [.worker (.closeLifecycle l)])]
  | .closeLifecycle l => [(s.modGen l Gen.close, [.worker (.waitGr l)])]
  | .waitGr l => if s.grWG = 0 then [(s, [.gc (.reset l)])] else []
  | .waitLifecycle l => if (s.gens l).count = 0 then [(s, [.worker (.lock l)])] else []
  | .lock l => if s.canLock true then [(s.lockPacket true, [.worker (.clear l)])] else []
  | .clear l => [(s.clear, [.worker (.unlock l)])]
  | .unlock l => [(s.unlockPacket true, [.worker (.deliver (some l))])]
  | .deliver cleared => [(s.deliver cleared.isSome, [])]

/-- One step of a thread. -/
def step (s : Shared) : Thread → Outcomes
  | .stop pc k => stopStep s k pc
  | .gc k => gcStep s k
  | .run pc => runStep s pc
  | .read pc => readStep s pc
  | .task l inline pc => taskStep s l inline pc
  | .cron l pc => cronStep s l pc
  | .write k pc => writeStep s k pc
  | .callbacks l .enter => [(s.enter, [.callbacks l .inside])]
  | .callbacks l .inside => [(s.leave.modGen l Gen.endCallbacks, [.callbacks l .release])]
  | .callbacks l .release => [(s.modGen l Gen.release, [])]
  | .cleanup l .closeConn => [(s.modGen l Gen.endCleanup, [.cleanup l .release])]
  | .cleanup l .release => [(s.modGen l Gen.release, [])]
  | .reset k => resetStep s k
  | .request wait => requestStep s wait
  | .await id => if s.results.any (fun r => r.1 == id) then [(s, [])] else []
  | .worker pc => workerStep s pc
  | .reuse cfg =>
      -- reusing a session is allowed once its reset is complete and before it is closed again
      if s.resetRun = none ∧ s.conn = none ∧ s.cur.once = .fresh then
        [((s.prepare cfg).modGen s.gen (Gen.carry cfg.attrs), [])]
      else []

/-- What may start at any time: `run`, `Close`, writes and reset requests, the
firing of an installed timer, and the preparation of a reset session. -/
def entry (s : Shared) : Thread → Bool
  | .run .register => true
  | .stop .readOnce .close => true
  | .write .send (.lock none none) => true
  | .write _ .closedCheck => true
  | .reset _ => true
  | .cron l .fire => 0 < s.wheel l
  | .reuse _ => true
  | _ => false

def prog : Prog Shared Thread where
  entry := entry
  step := step

def initial (cfg : Config) : Conf Shared Thread := ⟨Shared.init cfg, []⟩

end Getty.Transport.Session
