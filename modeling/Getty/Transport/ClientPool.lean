import Getty.Verified.ThreadPool
import Getty.Transport.Reconnect
import Getty.Transport.SingleFlight
import Mathlib.Logic.Function.Basic

/-!
# The client: connection pool, reconnect passes and Close

All goroutines that touch one client, with every access to shared state a step
of its own: `connect` from the dial to the admission of the session, the
`reConnect` passes that call it, `sessionNum`, `client.Close`, and what happens
to the sessions meanwhile, `Close`, the end of their read loops and resets.  A read loop
that ends with EOF takes the session off the reconnect: it sets `ignoreReconnectKey`.

A session appears here as the client sees it: whether `Connection` is present,
whether `done` is closed, the state of its `once`, and its attributes.  A reset
starts a new generation of all four.  The client's mutex is explicit where a
critical section looks at sessions, which can change in the middle of it, and
implicit in `runReconnect`, the top of the reconnect loop and `client.stop`.

The ghosts of `Shared` record what the statements are about: the critical
sections and what was observed and admitted in them, what `connect` returned,
which sessions were passed to `run()`, and how many parties are responsible for
closing a session.
-/

namespace Getty.Transport.ClientPool

open Getty.Verified.ThreadPool
open Getty.Transport.Reconnect (Options)
open Getty.Transport.SingleFlight (Flight)

/-! ## State -/

/-- A session as the client sees it.  `attrs` is `none` once `gc` has erased the
attributes; `resetting` is whether a reset worker is running. -/
structure Sess where
  gen : Nat
  connection : Bool
  done : Bool
  once : Once
  attrs : Option Attrs
  resetting : Bool
  deriving Repr, DecidableEq

/-- A dialed session. -/
def Sess.dialed : Sess := ⟨0, true, false, .fresh, some ⟨false, none⟩, false⟩

/-- `clientSessionActive`. -/
def Sess.active (x : Sess) : Bool := x.connection && !x.done

/-- `SetAttribute(sessionClientKey, c)`; a collected session has no attributes. -/
def Sess.setClient (x : Sess) : Sess :=
  { x with attrs := x.attrs.map (fun a => { a with client := true }) }

/-- `SetAttribute(ignoreReconnectKey, ignore)`. -/
def Sess.setIgnore (ignore : Bool) (x : Sess) : Sess :=
  { x with attrs := x.attrs.map (fun a => { a with ignoreReconnect := some ignore }) }

/-- `RemoveAttribute(sessionClientKey)`. -/
def Sess.removeClient (x : Sess) : Sess :=
  { x with attrs := x.attrs.map (fun a => { a with client := false }) }

/-- `RemoveAttribute(ignoreReconnectKey)`. -/
def Sess.removeIgnore (x : Sess) : Sess :=
  { x with attrs := x.attrs.map (fun a => { a with ignoreReconnect := none }) }

/-- `gc`. -/
def Sess.gc (x : Sess) : Sess :=
  match x.attrs with
  | none => x
  | some _ => { x with attrs := none, connection := false }

/-- The reset worker clears the fields. -/
def Sess.clear (x : Sess) : Sess :=
  ⟨x.gen + 1, false, false, .fresh, some ⟨false, none⟩, false⟩

/-- The `once` body has returned; the body belongs to generation `g`. -/
def Sess.finishOnce (x : Sess) (g : Nat) : Sess :=
  if x.gen = g then { x with once := .finished } else x

/-- The client.  From `sect` on the fields are ghosts: the number of critical
sections so far, the observations `(i, n)` that session `i` was active in section
`n`, the admissions, the results of `connect`, the sessions passed to `run()`,
and the number of parties responsible for closing a session, the pool included. -/
structure Shared where
  flight : Flight
  ssMap : Option (List Nat)
  mutex : Bool
  stopOnce : Once
  sess : Nat → Sess
  nextSess : Nat
  sect : Nat
  observed : List (Nat × Nat)
  admitted : List (Nat × Nat)
  returned : Nat → Option Bool
  ran : Nat → Bool
  custody : Nat → Nat

def Shared.init : Shared where
  flight := Flight.init
  ssMap := some []
  mutex := false
  stopOnce := .fresh
  sess _ := Sess.dialed
  nextSess := 0
  sect := 0
  observed := []
  admitted := []
  returned _ := none
  ran _ := false
  custody _ := 0

/-- The sessions of the pool; a nil map has none. -/
def Shared.pool (s : Shared) : List Nat := s.ssMap.getD []

/-- The session is active now. -/
def Shared.active (s : Shared) (i : Nat) : Bool := (s.sess i).active

/-! ## Threads -/

/-- Who called `connect`: the application, or pass `n` of the loop with channel
`ch` after `a` consecutive failures. -/
inductive Caller where
  | alone
  | loop (ch n a : Nat)
  deriving Repr, DecidableEq

/-- Who called `sessionNum`: the application, or `reConnect` before or after its
`connect`. -/
inductive NumCaller where
  | alone
  | before (ch n a : Nat)
  | after (ch n a : Nat)
  deriving Repr, DecidableEq

/-- Why `connect` does not admit a session. -/
inductive Drop where
  | gone
  | inactive
  | surplus
  deriving Repr, DecidableEq

/-- What follows a `session.stop` call: nothing, the `gc` of the read loop's
shutdown, the rest of a reset, the end of a `run()` whose `OnOpen` failed, the
return of `connect`, or the next session of `client.stop`. -/
inductive Cont where
  | ret
  | shutdown
  | reset
  | opening (k : Caller)
  | dropped (k : Caller)
  | pool (rest : List Nat)
  deriving Repr, DecidableEq

/-- `session.stop`, from the read of `s.once` to the end of the once body; `g` is
the generation of the `once` it read. -/
inductive StopPc where
  | readOnce
  | doOnce (g : Nat)
  | closeDone (g : Nat)
  | attrClient (g : Nat)
  | attrIgnore (g : Nat) (found : Bool)
  | reconnect (g : Nat)
  | finish (g : Nat)
  deriving Repr, DecidableEq

/-- `connect` after a successful dial. -/
inductive ConnPc where
  | newSession
  | setClient
  | setIgnore
  | run
  | check
  | onOpen
  | lock
  | pool
  | active
  | prune (todo : List Nat)
  | addSession
  | drop (why : Drop)
  | dropIgnore (why : Drop)
  | unlock (why : Drop)
  | unlockTrue
  deriving Repr, DecidableEq

/-- The goroutines.  A `sessionNum` call is before its critical section, or in it
with the sessions it has not looked at yet. -/
inductive Thread where
  | trigger
  | top (ch : Nat)
  | pass (ch n a : Nat)
  | failed (ch n a : Nat)
  | backoff (ch n a : Nat)
  | closing (ch : Nat)
  | sessionNum (k : NumCaller) (todo : Option (List Nat))
  | dial (k : Caller) (checked : Bool)
  | connect (k : Caller) (i : Nat) (pc : ConnPc)
  | close
  | closeSection
  | closeLoop (todo : List Nat)
  | closeDrop (i : Nat) (rest : List Nat)
  | closeDropIgnore (i : Nat) (rest : List Nat)
  | stop (i : Nat) (pc : StopPc) (k : Cont)
  | gc (i : Nat) (k : Cont)
  | readEOF (i : Nat)
  | reset (i : Nat)
  | clear (i : Nat)
  deriving Repr, DecidableEq

/-- The outcomes of a step: the shared state and the threads after it. -/
abbrev Outcomes := List (Shared × List Thread)

/-! ## Shared updates -/

def Shared.modSess (s : Shared) (i : Nat) (f : Sess → Sess) : Shared :=
  { s with sess := Function.update s.sess i (f (s.sess i)) }

/-- A critical section of one step. -/
def Shared.enter (s : Shared) (f : Flight) : Shared := { s with flight := f, sect := s.sect + 1 }

def Shared.lock (s : Shared) : Shared := { s with mutex := true, sect := s.sect + 1 }

def Shared.unlock (s : Shared) : Shared := { s with mutex := false }

/-- `clientSessionActive(i)` was true in the current section. -/
def Shared.observe (s : Shared) (i : Nat) : Shared :=
  { s with observed := (i, s.sect) :: s.observed }

/-- One party less is responsible for session `i`. -/
def Shared.release (s : Shared) (i : Nat) : Shared :=
  { s with custody := Function.update s.custody i (s.custody i - 1) }

/-- `delete(c.ssMap, i)`. -/
def Shared.delete (s : Shared) (i : Nat) : Shared :=
  { s with ssMap := s.ssMap.map (fun ss => ss.erase i) }

/-- One session of a prune loop. -/
def Shared.visit (s : Shared) (i : Nat) : Shared :=
  if s.active i then s.observe i else (s.delete i).release i

/-- A dial succeeds. -/
def Shared.create (s : Shared) : Shared :=
  { s with sess := Function.update s.sess s.nextSess Sess.dialed, nextSess := s.nextSess + 1 }

/-- Session `i` is passed to `run()`. -/
def Shared.start (s : Shared) (i : Nat) : Shared :=
  { s with
    ran := Function.update s.ran i true
    custody := Function.update s.custody i (s.custody i + 1) }

/-- `c.ssMap[ss] = struct{}{}`. -/
def Shared.addSession (s : Shared) (i : Nat) : Shared :=
  { s with ssMap := s.ssMap.map (fun ss => i :: ss), admitted := (i, s.sect) :: s.admitted }

/-- `connect` returns for session `i`. -/
def Shared.ret (s : Shared) (i : Nat) (ok : Bool) : Shared :=
  { s with returned := Function.update s.returned i (some ok) }

/-- The critical section of `client.stop`. -/
def Shared.closePool (s : Shared) : Shared :=
  { s with flight := s.flight.stop, ssMap := none, sect := s.sect + 1 }

/-! ## Steps -/

/-- The goroutine a `runReconnect` starts. -/
def spawned : Option Nat → List Thread
  | some ch => [.top ch]
  | none => []

/-- A pass returns. -/
def endPass (s : Shared) (ch n : Nat) : Shared × List Thread :=
  ({ s with flight := s.flight.finish n }, [.top ch])

/-- What the caller of `connect` does with the result. -/
def connectReturn : Caller → Bool → List Thread
  | .alone, _ => []
  | .loop ch n _, true => [.pass ch n 0]
  | .loop ch n a, false => [.failed ch n (a + 1)]

/-- What the caller of `sessionNum` does with the result. -/
def numReturn (o : Options) (s : Shared) (num : Nat) : NumCaller → Shared × List Thread
  | .alone => (s, [])
  | .before ch n a => if o.number ≤ num then endPass s ch n else (s, [.dial (.loop ch n a) false])
  | .after ch n a =>
      if o.number ≤ num ∨ o.attempts ≤ a then endPass s ch n else (s, [.backoff ch n a])

/-- What follows the return of `session.stop`. -/
def afterStop (s : Shared) (i : Nat) : Cont → Shared × List Thread
  | .ret => (s, [])
  | .shutdown => (s, [.gc i .shutdown])
  | .reset => (s, [.gc i .reset])
  | .opening k => (s, [.gc i (.opening k)])
  | .dropped k => ((s.release i).ret i false, connectReturn k false)
  | .pool rest => (s.release i, [.closeLoop rest])

/-- What follows `gc`. -/
def afterGc (i : Nat) : Cont → List Thread
  | .reset => [.clear i]
  | .opening k => [.connect k i .lock]
  | _ => []

/-- `session.stop`. -/
def stopStep (s : Shared) (i : Nat) (k : Cont) : StopPc → Outcomes
  | .readOnce => [(s, [.stop i (.doOnce (s.sess i).gen) k])]
  | .doOnce g =>
      if (s.sess i).gen = g then
        match (s.sess i).once with
        | .fresh =>
            [(s.modSess i (fun x => { x with once := .running }), [.stop i (.closeDone g) k])]
        | .running => []
        | .finished => [afterStop s i k]
      else [afterStop s i k]
  | .closeDone g => [(s.modSess i (fun x => { x with done := true }), [.stop i (.attrClient g) k])]
  | .attrClient g =>
      [(s, [.stop i (.attrIgnore g (((s.sess i).attrs.map Attrs.client).getD false)) k])]
  | .attrIgnore g found =>
      if found ∧ (s.sess i).attrs.bind Attrs.ignoreReconnect = some false then
        [(s, [.stop i (.reconnect g) k])]
      else [(s, [.stop i (.finish g) k])]
  | .reconnect g =>
      if s.mutex then []
      else
        [(s.enter s.flight.runReconnect.1,
          .stop i (.finish g) k :: spawned s.flight.runReconnect.2)]
  | .finish g => [afterStop (s.modSess i (fun x => x.finishOnce g)) i k]

/-- `connect` after the dial. -/
def connectStep (o : Options) (s : Shared) (k : Caller) (i : Nat) : ConnPc → Outcomes
  | .newSession =>
      -- a failed callback only closes the socket, and without a connection it takes the process
      -- down
      (s, [.connect k i .setClient]) ::
        if (s.sess i).connection then [(s.ret i false, connectReturn k false)] else []
  | .setClient => [(s.modSess i Sess.setClient, [.connect k i .setIgnore])]
  | .setIgnore => [(s.modSess i (Sess.setIgnore false), [.connect k i .run])]
  | .run =>
      if (s.sess i).resetting then [(s.start i, [.connect k i .lock])]
      else [(s.start i, [.connect k i .check])]
  | .check =>
      -- `run` panics without a connection, and takes the process down
      if (s.sess i).connection then [(s, [.connect k i .onOpen])] else []
  | .onOpen => [(s, [.connect k i .lock]), (s, [.stop i .readOnce (.opening k)])]
  | .lock => if s.mutex then [] else [(s.lock, [.connect k i .pool])]
  | .pool =>
      match s.ssMap with
      | none => [(s, [.connect k i (.drop .gone)])]
      | some _ => [(s, [.connect k i .active])]
  | .active =>
      if s.active i then [(s.observe i, [.connect k i (.prune s.pool)])]
      else [(s, [.connect k i (.drop .inactive)])]
  | .prune [] => [(s, [.connect k i .addSession])]
  | .prune todo => todo.map (fun j => (s.visit j, [.connect k i (.prune (todo.erase j))]))
  | .addSession =>
      if o.number ≤ s.pool.length then [(s, [.connect k i (.drop .surplus)])]
      else [(s.addSession i, [.connect k i .unlockTrue])]
  | .drop why => [(s.modSess i Sess.removeClient, [.connect k i (.dropIgnore why)])]
  | .dropIgnore why => [(s.modSess i Sess.removeIgnore, [.connect k i (.unlock why)])]
  | .unlock .inactive => [((s.unlock.release i).ret i false, connectReturn k false)]
  | .unlock _ => [(s.unlock, [.stop i .readOnce (.dropped k)])]
  | .unlockTrue => [(s.unlock.ret i true, connectReturn k true)]

/-- The two ends of the callback. -/
theorem mem_newSession {o : Options} {s s' : Shared} {k : Caller} {i : Nat} {bs : List Thread}
    (h : (s', bs) ∈ connectStep o s k i .newSession) :
    (s', bs) = (s, [.connect k i .setClient]) ∨
      (s', bs) = (s.ret i false, connectReturn k false) := by
  simp only [connectStep] at h
  rcases List.mem_cons.mp h with h | h
  · exact Or.inl h
  · split at h
    · exact Or.inr (List.mem_singleton.mp h)
    · cases h

/-- `sessionNum`. -/
def numStep (o : Options) (s : Shared) (k : NumCaller) : Option (List Nat) → Outcomes
  | none => if s.mutex then [] else [(s.lock, [.sessionNum k (some s.pool)])]
  | some [] => [numReturn o s.unlock s.pool.length k]
  | some todo => todo.map (fun j => (s.visit j, [.sessionNum k (some (todo.erase j))]))

/-- One step of a thread. -/
def step (o : Options) (s : Shared) : Thread → Outcomes
  | .trigger =>
      if s.mutex then []
      else [(s.enter s.flight.runReconnect.1, spawned s.flight.runReconnect.2)]
  | .top ch =>
      if s.mutex then []
      else
        [(s.enter s.flight.next.1,
          if s.flight.next.2 then [.pass ch s.flight.next.1.started 0] else [.closing ch])]
  | .pass ch n a =>
      if a < o.attempts ∧ s.flight.done = false then [(s, [.sessionNum (.before ch n a) none])]
      else [endPass s ch n]
  | .failed ch n a =>
      if s.flight.done then [endPass s ch n] else [(s, [.sessionNum (.after ch n a) none])]
  | .backoff ch n a =>
      (if s.flight.done then [endPass s ch n] else []) ++ [(s, [.pass ch n a])]
  | .closing ch => [({ s with flight := s.flight.closeChan ch }, [])]
  | .sessionNum k todo => numStep o s k todo
  | .dial k false => if s.flight.done then [(s, connectReturn k false)] else [(s, [.dial k true])]
  | .dial k true =>
      [(s, connectReturn k false), (s.create, [.connect k s.nextSess .newSession])]
  | .connect k i pc => connectStep o s k i pc
  | .close =>
      match s.stopOnce with
      | .fresh => [({ s with stopOnce := .running }, [.closeSection])]
      | .running => []
      | .finished => [(s, [])]
  | .closeSection => if s.mutex then [] else [(s.closePool, [.closeLoop s.pool])]
  | .closeLoop [] => [({ s with stopOnce := .finished }, [])]
  | .closeLoop todo => todo.map (fun i => (s, [.closeDrop i (todo.erase i)]))
  | .closeDrop i rest => [(s.modSess i Sess.removeClient, [.closeDropIgnore i rest])]
  | .closeDropIgnore i rest =>
      [(s.modSess i Sess.removeIgnore, [.stop i .readOnce (.pool rest)])]
  | .stop i pc k => stopStep s i k pc
  | .gc i k => [(s.modSess i Sess.gc, afterGc i k)]
  | .readEOF i => [(s.modSess i (Sess.setIgnore true), [.stop i .readOnce .shutdown])]
  | .reset i =>
      if (s.sess i).resetting then [(s, [])]
      else [(s.modSess i (fun x => { x with resetting := true }), [.stop i .readOnce .reset])]
  | .clear i => [(s.modSess i Sess.clear, [])]

/-- What may start at any time: reconnect triggers, `connect` and `sessionNum`
calls, `client.Close`, and on a dialed session its `Close`, the end of its read
loop, with EOF or without, and a reset. -/
def entry (s : Shared) : Thread → Bool
  | .trigger => true
  | .sessionNum .alone none => true
  | .dial .alone false => true
  | .close => true
  | .stop i .readOnce .ret => i < s.nextSess
  | .stop i .readOnce .shutdown => i < s.nextSess
  | .readEOF i => i < s.nextSess
  | .reset i => i < s.nextSess
  | _ => false

def prog (o : Options) : Prog Shared Thread where
  entry := entry
  step := step o

def initial : Conf Shared Thread := ⟨Shared.init, []⟩

end Getty.Transport.ClientPool
