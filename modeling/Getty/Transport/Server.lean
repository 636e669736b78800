import Getty.Verified.ThreadPool
import Getty.Transport.Basic

/-!
# The server: event loops, request handlers and `Close`

All goroutines of one server: a `RunEventLoop` call, the event loop it starts,
the connection goroutines of net/http that execute `serveWSRequest`, and any number of
`Close` calls.  Taking `s.lock`, the section under it, the closing of `done`, a wait group
operation and the beginning of a user callback are steps of their own.

The section of `stop` spans several steps, because `http.Server.Shutdown` runs in it.
Of net/http it is assumed that `Shutdown` ends idle connections and `Serve`, that no
request begins after it, and that it waits for the requests in progress until its
deadline, where a request that `Upgrade` has hijacked does not count.  `Serve` closes its
listener when it returns.

A panic in `RunEventLoop` or in an event loop ends the process and is not modelled; one
in `NewSessionCallback` is an error for `callNewSession`.
-/

namespace Getty.Transport.Server

open Getty.Verified.ThreadPool

/-! ## State -/

/-- The endpoint types a server can have. -/
inductive EndPointType where
  | udpEndpoint
  | tcpServer
  | wsServer
  | wssServer
  deriving Repr, DecidableEq

/-- Requests are served by net/http. -/
def EndPointType.isWS : EndPointType → Bool
  | .wsServer => true
  | .wssServer => true
  | _ => false

structure Listener where
  closed : Bool
  deriving Repr, DecidableEq

/-- The server.  `server` says whether `s.server` is set, `serving` whether its `Serve`
runs, `shutdown` whether its `Shutdown` was called, and `tracked` counts the requests in
progress that are not hijacked.  The last fields are ghosts: the section of `stop` has
been entered, the deadline of `Shutdown` has passed, the calls of `NewSessionCallback` and
`run`, the `Close` calls that have returned, and those of them that found `done` closed
while the first call was still in the body of the `once`. -/
structure Shared where
  endPointType : EndPointType
  done : Bool
  once : Once
  locked : Bool
  server : Bool
  serving : Bool
  shutdown : Bool
  tracked : Nat
  streamListener : Option Listener
  pktListener : Option Listener
  wg : Int
  entered : Bool
  expired : Bool
  invoked : Nat
  started : Nat
  returned : Nat
  hasty : Nat
  deriving Repr, DecidableEq

def Shared.init (t : EndPointType) : Shared :=
  ⟨t, false, .fresh, false, false, false, false, 0, none, none, 0, false, false, 0, 0, 0, 0⟩

/-- Every published listener has been closed. -/
def Shared.listenersClosed (s : Shared) : Bool :=
  s.streamListener.all Listener.closed && s.pktListener.all Listener.closed

/-! ## Goroutines -/

/-- `Close`, which is `stop` and then `wg.Wait`.  `stream` and `pkt` say which listeners
the section of `stop` has seen, `hasty` whether the call passed by the `once` while its
body was running. -/
inductive ClosePc where
  | select
  | doOnce
  | closeDone
  | lock
  | shutdown
  | drain
  | snapshot
  | closeStream (stream pkt : Bool)
  | closePkt (pkt : Bool)
  | finish
  | wait (hasty : Bool)
  deriving Repr, DecidableEq

/-- `RunEventLoop`.  Before `store` and `add` it has taken `s.lock` and found `done`
open. -/
inductive RunPc where
  | listen
  | bind
  | publish
  | store
  | register
  | add
  | launch
  deriving Repr, DecidableEq

/-- An event loop; `delay` is the back-off of the accept loop in milliseconds. -/
inductive LoopPc where
  | check (delay : Nat)
  | backoff (delay : Nat)
  | accept (delay : Nat)
  | newSession (delay : Nat)
  | inNewSession (delay : Nat)
  | run
  | setServer
  | startServe
  | serve
  | exit
  deriving Repr, DecidableEq

/-- A connection goroutine of net/http, from `method` on inside `serveWSRequest`. -/
inductive ConnPc where
  | idle
  | method
  | isClosed
  | upgrade
  | sameAddr
  | newSession
  | inNewSession
  | run
  deriving Repr, DecidableEq

inductive Thread where
  | close (pc : ClosePc)
  | runEventLoop (pc : RunPc)
  | loop (pc : LoopPc)
  | conn (pc : ConnPc)
  deriving Repr, DecidableEq

abbrev Outcomes := List (Shared × List Thread)

/-! ## Updates -/

def Shared.closeStream (s : Shared) : Shared :=
  { s with streamListener := s.streamListener.map (fun _ => ⟨true⟩) }

def Shared.closePkt (s : Shared) : Shared :=
  { s with pktListener := s.pktListener.map (fun _ => ⟨true⟩) }

/-- The sections of `publishStreamListener` and `publishPacketListener`. -/
def Shared.publish (s : Shared) : Shared :=
  match s.endPointType with
  | .udpEndpoint => { s with pktListener := some ⟨false⟩ }
  | _ => { s with streamListener := some ⟨false⟩ }

/-- `http.Server.Shutdown` closes the listener of a running `Serve`. -/
def Shared.beginShutdown (s : Shared) : Shared :=
  if s.serving then { s.closeStream with shutdown := true } else { s with shutdown := true }

/-- `NewSessionCallback` is called. -/
def Shared.invoke (s : Shared) : Shared := { s with invoked := s.invoked + 1 }

/-- `run` of a new session is called. -/
def Shared.startSession (s : Shared) : Shared := { s with started := s.started + 1 }

/-- A request begins. -/
def Shared.track (s : Shared) : Shared := { s with tracked := s.tracked + 1 }

/-- A request ends, or its connection is hijacked. -/
def Shared.untrack (s : Shared) : Shared := { s with tracked := s.tracked - 1 }

/-- A `Close` call returns. -/
def Shared.ret (s : Shared) (hasty : Bool) : Shared :=
  { s with returned := s.returned + 1, hasty := s.hasty + hasty.toNat }

/-! ## Steps -/

/-- `Close`. -/
def closeStep (s : Shared) : ClosePc → Outcomes
  | .select =>
      if s.done then [(s, [.close (.wait (s.once != .finished))])]
      else [(s, [.close .doOnce])]
  | .doOnce =>
      match s.once with
      | .fresh => [({ s with once := .running }, [.close .closeDone])]
      | .running => []
      | .finished => [(s, [.close (.wait false)])]
  | .closeDone => [({ s with done := true }, [.close .lock])]
  | .lock =>
      if s.locked then []
      else
        [({ s with locked := true, entered := true },
          [.close (if s.server then .shutdown else .snapshot)])]
  | .shutdown => [(s.beginShutdown, [.close .drain])]
  | .drain =>
      -- requests in progress hold `Shutdown` up until its deadline
      if s.tracked = 0 then [(s, [.close .snapshot])]
      else [({ s with expired := true }, [.close .snapshot])]
  | .snapshot =>
      [({ s with server := false, locked := false },
        [.close (.closeStream s.streamListener.isSome s.pktListener.isSome)])]
  | .closeStream stream pkt => [(if stream then s.closeStream else s, [.close (.closePkt pkt)])]
  | .closePkt pkt => [(if pkt then s.closePkt else s, [.close .finish])]
  | .finish => [({ s with once := .finished }, [.close (.wait false)])]
  | .wait hasty => if s.wg = 0 then [(s.ret hasty, [])] else []

/-- Where the event loop of an endpoint type begins. -/
def firstPc : EndPointType → LoopPc
  | .udpEndpoint => .newSession 0
  | .tcpServer => .check 0
  | .wsServer => .setServer
  | .wssServer => .setServer

/-- `RunEventLoop`: the `IsClosed` test of `listenTCP` and `listenUDP`, the socket call,
the publication of the listener, and `startEventLoop`.  The last two test `done` under
`s.lock`, but `stop` closes it without, so the test and what follows it are two steps. -/
def runStep (s : Shared) : RunPc → Outcomes
  | .listen => if s.done then [(s, [])] else [(s, [.runEventLoop .bind])]
  | .bind => [(s, [.runEventLoop .publish]), (s, [])]
  | .publish =>
      if s.locked then []
      else if s.done then [(s, [])]
      else [({ s with locked := true }, [.runEventLoop .store])]
  | .store => [({ s.publish with locked := false }, [.runEventLoop .register])]
  | .register =>
      if s.locked then []
      else if s.done then [(s, [])]
      else [({ s with locked := true }, [.runEventLoop .add])]
  | .add => [({ s with wg := s.wg + 1, locked := false }, [.runEventLoop .launch])]
  | .launch => [(s, [.loop (firstPc s.endPointType)])]

/-- The back-off after another failed `accept`. -/
def nextDelay (delay : Nat) : Nat := min (if delay = 0 then 5 else delay * 2) 1000

/-- The goroutines of `runTCPEventLoop`, `runUDPEventLoop`, `runWSEventLoop` and
`runWSSEventLoop`. -/
def loopStep (s : Shared) : LoopPc → Outcomes
  | .check delay =>
      if s.done then [(s, [.loop .exit])]
      else if delay = 0 then [(s, [.loop (.accept delay)])]
      else [(s, [.loop (.backoff delay)])]
  | .backoff delay =>
      if s.done then [(s, [.loop (.accept delay)]), (s, [.loop .exit])]
      else [(s, [.loop (.accept delay)])]
  | .accept delay =>
      -- a closed listener only returns errors
      if s.streamListener = some ⟨false⟩ then
        [(s, [.loop (.newSession delay)]), (s, [.loop (.check (nextDelay delay))])]
      else [(s, [.loop (.check (nextDelay delay))])]
  | .newSession delay => [(s.invoke, [.loop (.inNewSession delay)])]
  | .inNewSession delay =>
      match s.endPointType with
      | .udpEndpoint => [(s, [.loop .run]), (s.closePkt, [.loop .exit])]
      | _ => [(s, [.loop .run]), (s, [.loop (.check (nextDelay delay))])]
  | .run =>
      match s.endPointType with
      | .udpEndpoint => [(s.startSession, [.loop .exit])]
      | _ => [(s.startSession, [.loop (.check 0)])]
  | .setServer =>
      if s.locked then [] else [({ s with server := true }, [.loop .startServe])]
  | .startServe => [({ s with serving := !s.shutdown }, [.loop .serve])]
  | .serve =>
      let ended := ({ s.closeStream with serving := false }, [Thread.loop .exit])
      if s.shutdown = false ∧ s.streamListener = some ⟨false⟩ then
        [(s, [.loop .serve, .conn .idle]), ended]
      else [ended]
  | .exit => [({ s with wg := s.wg - 1 }, [])]

/-- A connection of net/http and `serveWSRequest` on it. -/
def connStep (s : Shared) : ConnPc → Outcomes
  | .idle => if s.shutdown then [(s, [])] else [(s.track, [.conn .method]), (s, [])]
  | .method => [(s, [.conn .isClosed]), (s.untrack, [.conn .idle])]
  | .isClosed => if s.done then [(s.untrack, [.conn .idle])] else [(s, [.conn .upgrade])]
  | .upgrade => [(s.untrack, [.conn .sameAddr]), (s.untrack, [.conn .idle])]
  | .sameAddr => [(s, [.conn .newSession]), (s, [])]
  | .newSession => [(s.invoke, [.conn .inNewSession])]
  | .inNewSession => [(s, [.conn .run]), (s, [])]
  | .run => [(s.startSession, [])]

def step (s : Shared) : Thread → Outcomes
  | .close pc => closeStep s pc
  | .runEventLoop pc => runStep s pc
  | .loop pc => loopStep s pc
  | .conn pc => connStep s pc

/-- `Close` may be called at any time. -/
def entry (_ : Shared) : Thread → Bool
  | .close .select => true
  | _ => false

def prog : Prog Shared Thread where
  entry := entry
  step := step

/-- A server with one `RunEventLoop` call. -/
def initial (t : EndPointType) : Conf Shared Thread :=
  ⟨Shared.init t, [.runEventLoop .listen]⟩

end Getty.Transport.Server
