import Getty.Verified.CallStack
import Getty.Transport.SessionSafety
import Getty.Transport.SessionSteps

/-!
# The read goroutine survives every panic

`run` ends by starting the read goroutine: a function that defers `grWG.Done` and calls
`handlePackage`, which defers its cleanup and reads packages until the connection ends.
Application code runs on this goroutine at four places, each of them inside `invokeCallback`:
the Reader, `OnMessage` when there is no task pool, and `OnError` and `OnClose` in the
cleanup, where `invokeEventCallback` recovers their panics one by one.

Here the goroutine has its call stack.  Its code is that of the source, with the calls, the
deferred calls and the recoveries where the source has them; every callback may return or panic.
What the actions do to the session is what the read goroutine of `Session.prog` does to it,
so all of `Session.prog` runs beside.

`stop` and `gc` run no application code on this goroutine.  `invokeEventCallback` asks for
`completed` before it recovers; it is set if and only if there is nothing to recover.

## Main results

* `performed` — what every action of the goroutine does, and where it gets to.
* `refinement` — such a session only reaches what `Session.prog` reaches.
* `cleanup_survives_panics` — no panic leaves the goroutine, and its cleanup is complete.
-/

namespace Getty.Transport.HandlePackage

open Getty.Verified.ThreadPool
open Getty.Verified.CallStack
open Getty.Transport.Session (Config StopPc)

/-! ## The code -/

/-- The application code on the read goroutine. -/
inductive Callback where
  | reader
  | onMessage
  | onError
  | onClose
  deriving Repr, DecidableEq

/-- The actions.  `loop` is a read loop up to the next package or its end, `dispatch` what it
does with the result of `readPackage`. -/
inductive Act where
  | loop
  | dispatch
  | acquire
  | closedCheck
  | release
  | enter (cb : Callback)
  | user (cb : Callback)
  | leave (cb : Callback)
  | grNum
  | stop
  | ifErr
  | gc
  | grDone
  deriving Repr, DecidableEq

/-- `invokeCallback`. -/
def invokeCallback (cb : Callback) : Code Act :=
  .act (.enter cb) <| .defer (.act (.leave cb) .ret) <| .act (.user cb) .ret

/-- `invokeEventCallback`. -/
def invokeEventCallback (cb : Callback) : Code Act :=
  .defer (.recover .ret) <| .call (invokeCallback cb) .ret

/-- The function that `addTask` calls when there is no task pool. -/
def task : Code Act :=
  .act .acquire <| .defer (.act .release .ret) <| .act .closedCheck <|
    .call (invokeCallback .onMessage) .ret

/-- The cleanup behind `recover`. -/
def shutdown : Code Act :=
  .act .grNum <| .act .stop <| .act .ifErr <| .call (invokeEventCallback .onClose) .ret

/-- The function that `handlePackage` defers. -/
def cleanup : Code Act := .defer (.act .gc .ret) <| .recover shutdown

def handlePackage : Code Act := .defer cleanup <| .act .loop .ret

/-- The goroutine that `run` starts. -/
def readGoroutine : Code Act := .defer (.act .grDone .ret) <| .call handlePackage .ret

/-! ## The model -/

/-- What the cleanup has done. -/
inductive Event where
  | stopped
  | onError
  | onClose
  | gc
  deriving Repr, DecidableEq

/-- The variables of the goroutine: the error of the read loop, whether the Reader has returned
a package, the lifecycle that `addTask` has read and the position in `stop`.  `gen` and
`events` are ghosts. -/
structure Locals where
  gen : Nat
  err : Bool
  pkg : Bool
  lifecycle : Nat
  stop : StopPc
  events : List Event
  deriving Repr, DecidableEq

def Locals.init (gen : Nat) : Locals := ⟨gen, false, false, 0, .readOnce, []⟩

def Locals.record (v : Locals) (e : Event) : Locals := { v with events := v.events ++ [e] }

/-- A read goroutine that has ended. -/
structure Record where
  gen : Nat
  err : Bool
  events : List Event
  deriving Repr, DecidableEq

/-- The session and `grNum`; how often `CloseConn` has been scheduled in every generation, the
read goroutines that have ended, and whether a panic has left one. -/
structure Shared where
  sess : Session.Shared
  grNum : Int
  closeConns : Nat → Nat
  ended : List Record
  crashed : Bool

inductive Thread where
  | sess (th : Session.Thread)
  | handle (st : Stack Act) (v : Locals)
  deriving Repr, DecidableEq

/-- A step of the session. -/
def Shared.take (s : Shared) (x : Session.Shared) (started : List Session.Thread) : Shared :=
  { s with
    sess := x
    closeConns := fun g => s.closeConns g + started.countP (· == .cleanup g .closeConn) }

/-- What an action comes to. -/
structure Result where
  shared : Shared
  locals : Locals
  outcome : Outcome Act
  started : List Session.Thread

/-- An action after which the function goes on. -/
def goOn (s : Shared) (v : Locals) : Result := ⟨s, v, .next .ret, []⟩

def Callback.event : Callback → Option Event
  | .onError => some .onError
  | .onClose => some .onClose
  | _ => none

def Locals.call (v : Locals) (cb : Callback) : Locals :=
  match cb.event with
  | none => v
  | some e => v.record e

def perform (s : Shared) (v : Locals) : Act → List Result
  | .loop =>
      -- a package to decode, the end without or with an error, or a panic
      [⟨s, v, .next (.call (invokeCallback .reader) (.act .dispatch .ret)), []⟩,
        ⟨s, v, .ret, []⟩, ⟨s, { v with err := true }, .ret, []⟩, ⟨s, v, .panic, []⟩]
  | .dispatch =>
      if v.pkg then
        if s.sess.endPoint = some true then
          [⟨s, v, .next (.act .loop .ret), [.task s.sess.gen false .acquire]⟩]
        else
          [⟨s, { v with lifecycle := s.sess.gen }, .next (.call task (.act .loop .ret)), []⟩]
      else [⟨s, v, .next (.act .loop .ret), []⟩]
  | .acquire =>
      if (s.sess.gens v.lifecycle).closed then [⟨s, v, .ret, []⟩]
      else [goOn { s with sess := s.sess.modGen v.lifecycle Session.Gen.acquire } v]
  | .closedCheck => if s.sess.cur.done then [⟨s, v, .ret, []⟩] else [goOn s v]
  | .release => [goOn { s with sess := s.sess.modGen v.lifecycle Session.Gen.release } v]
  | .enter .reader => [goOn { s with sess := s.sess.enter } v]
  | .enter cb =>
      if s.sess.listener then [goOn { s with sess := s.sess.enter } (v.call cb)]
      else [⟨s, v, .ret, []⟩]
  | .user .reader =>
      [goOn s { v with pkg := true }, goOn s { v with pkg := false }, ⟨s, v, .panic, []⟩]
  | .user _ => [goOn s v, ⟨s, v, .panic, []⟩]
  | .leave _ => [goOn { s with sess := s.sess.leave } v]
  | .grNum => [goOn { s with grNum := s.grNum - 1 } v]
  | .stop =>
      (Session.stopStep s.sess (.shutdown v.err) v.stop).map fun out =>
        match out.2 with
        | .stop pc _ :: rest =>
            ⟨s.take out.1 rest, { v with stop := pc }, .next (.act .stop .ret), rest⟩
        | _ => goOn (s.take out.1 []) (v.record .stopped)
  | .ifErr =>
      if v.err then [⟨s, v, .next (.call (invokeEventCallback .onError) .ret), []⟩]
      else [goOn s v]
  | .gc =>
      (Session.gcStep s.sess .shutdown).map fun out =>
        ⟨s.take out.1 out.2.tail, v.record .gc, .next .ret, out.2.tail⟩
  | .grDone => [goOn { s with sess := s.sess.addGr (-1) } v]

abbrev Outcomes := List (Shared × List Thread)

/-- The read goroutine: a step between two actions, an action, or the end. -/
def handleStep (s : Shared) (st : Stack Act) (v : Locals) : Outcomes :=
  match silent st with
  | some .crashed => [({ s with crashed := true }, [])]
  | some (.running st') => [(s, [.handle st' v])]
  | none =>
      match action st with
      | some a =>
          (perform s v a).map fun r =>
            (r.shared, .handle (answer r.outcome st) r.locals :: r.started.map .sess)
      | none => [({ s with ended := ⟨v.gen, v.err, v.events⟩ :: s.ended }, [])]

/-- The other goroutines.  `run` starts the read goroutine, and a reset clears `grNum`. -/
def sessStep (s : Shared) : Session.Thread → Outcomes
  | .run .start =>
      [({ s with sess := s.sess.addGr 1, grNum := s.grNum + 1 },
        [.sess (.run .exit), .handle [.enter readGoroutine] (.init s.sess.gen)])]
  | .worker (.clear l) =>
      liftOutcomes (fun x _ => { s with sess := x, grNum := 0 }) .sess
        (Session.step s.sess (.worker (.clear l)))
  | th => liftOutcomes s.take .sess (Session.step s.sess th)

def step (s : Shared) : Thread → Outcomes
  | .sess th => sessStep s th
  | .handle st v => handleStep s st v

def prog : Prog Shared Thread where
  entry s
    | .sess th => Session.entry s.sess th
    | .handle _ _ => false
  step := step

def initial (cfg : Config) : Conf Shared Thread :=
  ⟨⟨Session.Shared.init cfg, 0, fun _ => 0, [], false⟩, []⟩

/-! ## Where the goroutine is -/

/-- The actions with their call stacks.  An action of a deferred call belongs to a function that
returns or panics. -/
inductive Point where
  | loop
  | dispatch
  | acquire
  | closedCheck
  | release (panicking : Bool)
  | enter (cb : Callback)
  | user (cb : Callback)
  | leave (cb : Callback) (panicking : Bool)
  | grNum
  | stop
  | ifErr
  | gc
  | grDone
  | ended

/-- A call whose code is done. -/
def closing (defers : List (Code Act)) (panicking : Bool) : Frame Act := ⟨.ret, defers, panicking⟩

/-- `handlePackage` while it reads, above the goroutine's own frame. -/
def reading (code : Code Act) : Stack Act :=
  [⟨code, [cleanup], false⟩, closing [.act .grDone .ret] false]

/-- The cleanup, which `handlePackage` has called on its way out. -/
def cleaning (code : Code Act) : Stack Act :=
  [⟨code, [.act .gc .ret], false⟩, closing [] false, closing [.act .grDone .ret] false]

/-- The callers of `invokeCallback`. -/
def Callback.callers : Callback → Stack Act
  | .reader => reading (.act .dispatch .ret)
  | .onMessage => closing [.act .release .ret] false :: reading (.act .loop .ret)
  | .onError =>
      closing [.recover .ret] false :: cleaning (.call (invokeEventCallback .onClose) .ret)
  | .onClose => closing [.recover .ret] false :: cleaning .ret

def Point.stack : Point → Stack Act
  | .loop => reading (.act .loop .ret)
  | .dispatch => reading (.act .dispatch .ret)
  | .acquire => .enter task :: reading (.act .loop .ret)
  | .closedCheck =>
      ⟨.act .closedCheck (.call (invokeCallback .onMessage) .ret), [.act .release .ret], false⟩ ::
        reading (.act .loop .ret)
  | .release p => .enter (.act .release .ret) :: closing [] p :: reading (.act .loop .ret)
  | .enter cb => .enter (invokeCallback cb) :: cb.callers
  | .user cb => ⟨.act (.user cb) .ret, [.act (.leave cb) .ret], false⟩ :: cb.callers
  | .leave cb p => .enter (.act (.leave cb) .ret) :: closing [] p :: cb.callers
  | .grNum => cleaning shutdown
  | .stop => cleaning (.act .stop <| .act .ifErr <| .call (invokeEventCallback .onClose) .ret)
  | .ifErr => cleaning (.act .ifErr <| .call (invokeEventCallback .onClose) .ret)
  | .gc =>
      [.enter (.act .gc .ret), closing [] false, closing [] false,
        closing [.act .grDone .ret] false]
  | .grDone => [.enter (.act .grDone .ret), closing [] false]
  | .ended => []

/-- The goroutine as `Session.prog` sees it. -/
def Point.view (v : Locals) : Point → List Session.Thread
  | .loop => [.read .loop]
  | .dispatch => if v.pkg then [.read .addTask] else [.read .loop]
  | .acquire => [.task v.lifecycle true .acquire]
  | .closedCheck => [.task v.lifecycle true .closedCheck]
  | .release p => [.task v.lifecycle true (.release p)]
  | .enter .reader => [.read .decode]
  | .user .reader => [.read .decoding]
  | .leave .reader _ => [.read .decoding]
  | .enter .onMessage => [.task v.lifecycle true .listener]
  | .user .onMessage => [.task v.lifecycle true .inMessage]
  | .leave .onMessage _ => [.task v.lifecycle true .inMessage]
  | .enter .onError => [.read .onError]
  | .user .onError => [.read .inError]
  | .leave .onError _ => [.read .inError]
  | .enter .onClose => [.read .onClose]
  | .user .onClose => [.read .inClose]
  | .leave .onClose _ => [.read .inClose]
  | .grNum => [.stop .readOnce (.shutdown v.err)]
  | .stop => [.stop v.stop (.shutdown v.err)]
  | .ifErr => if v.err then [.read .onError] else [.read .onClose]
  | .gc => [.gc .shutdown]
  | .grDone => [.read .exit]
  | .ended => []

/-- The read loop has not ended. -/
def Callback.reads : Callback → Bool
  | .reader => true
  | .onMessage => true
  | _ => false

def Point.reads : Point → Bool
  | .loop => true
  | .dispatch => true
  | .acquire => true
  | .closedCheck => true
  | .release _ => true
  | .enter cb => cb.reads
  | .user cb => cb.reads
  | .leave cb _ => cb.reads
  | _ => false

/-- The callback that the goroutine is about. -/
def Point.callback : Point → Option Callback
  | .enter cb => some cb
  | .user cb => some cb
  | .leave cb _ => some cb
  | _ => none

/-- The variables at a point. -/
structure Fits (pt : Point) (v : Locals) : Prop where
  err : pt.reads = true → v.err = false
  stop : pt.reads = true ∨ pt = .grNum → v.stop = .readOnce
  error : pt.callback = some .onError → v.err = true

/-- What the cleanup has done so far. -/
def Point.events (err : Bool) : Point → List Event
  | .ifErr => [.stopped]
  | .enter .onError => [.stopped]
  | .user .onError => [.stopped, .onError]
  | .leave .onError _ => [.stopped, .onError]
  | .enter .onClose => if err then [.stopped, .onError] else [.stopped]
  | .user .onClose => if err then [.stopped, .onError, .onClose] else [.stopped, .onClose]
  | .leave .onClose _ => if err then [.stopped, .onError, .onClose] else [.stopped, .onClose]
  | .gc => if err then [.stopped, .onError, .onClose] else [.stopped, .onClose]
  | .grDone => if err then [.stopped, .onError, .onClose, .gc] else [.stopped, .onClose, .gc]
  | .ended => if err then [.stopped, .onError, .onClose, .gc] else [.stopped, .onClose, .gc]
  | _ => []

/-- The goroutine is counted in `grNum`. -/
def Point.counted (pt : Point) : Bool :=
  match pt with
  | .grNum => true
  | _ => pt.reads

/-- The cleanup is complete. -/
def Point.done : Point → Bool
  | .grDone => true
  | .ended => true
  | _ => false

/-- How much of `stop` is left. -/
def stopRank : StopPc → Nat
  | .readOnce => 11
  | .doOnce _ => 10
  | .closeDone _ => 9
  | .takeTimer _ => 8
  | .stopTimer _ _ _ => 7
  | .closeLifecycle _ _ => 6
  | .closeCallbacks _ _ => 5
  | .attrClient _ => 4
  | .attrIgnore _ _ => 3
  | .runReconnect _ => 2
  | .finish _ => 1

/-- How much of the cleanup is left. -/
def Point.rank (v : Locals) : Point → Nat
  | .grNum => 21
  | .stop => 9 + stopRank v.stop
  | .ifErr => 9
  | .enter .onError => 8
  | .user .onError => 7
  | .leave .onError _ => 6
  | .enter .onClose => 5
  | .user .onClose => 4
  | .leave .onClose _ => 3
  | .gc => 2
  | .grDone => 1
  | .ended => 0
  | _ => 22

/-! ## What an action does -/

/-- The action at `pt` has come to `r`, and the goroutine gets to `pt'`. -/
structure Reached (s : Shared) (pt : Point) (v : Locals) (r : Result) (pt' : Point) : Prop where
  settles : settle (answer r.outcome pt.stack) = .running pt'.stack
  fits : Fits pt' r.locals
  sess : (r.shared.sess = s.sess ∧ pt'.view r.locals = pt.view v ∧ r.started = []) ∨
    ∃ th, pt.view v = [th] ∧
      (r.shared.sess, pt'.view r.locals ++ r.started) ∈ Session.step s.sess th
  grNum : r.shared.grNum + pt.counted.toNat = s.grNum + pt'.counted.toNat
  closeConns : ∀ g, r.shared.closeConns g =
    s.closeConns g + r.started.countP (· == .cleanup g .closeConn)
  kept : r.shared.ended = s.ended ∧ r.shared.crashed = s.crashed ∧ r.locals.gen = v.gen
  events : s.sess.listener = true → v.events = pt.events v.err →
    r.locals.events = pt'.events r.locals.err
  rank : pt.reads = false → pt'.rank r.locals < pt.rank v
  done : pt'.done = true → pt = .gc ∨ pt = .grDone

section Reached

variable {s : Shared} {v v' : Locals} {pt pt' : Point} {o : Outcome Act}

/-- An action that the session does not notice. -/
theorem reached_silent (hsettles : settle (answer o pt.stack) = .running pt'.stack)
    (hfits : Fits pt' v') (hview : pt'.view v' = pt.view v) (hcounted : pt'.counted = pt.counted)
    (hgen : v'.gen = v.gen) (hevents : v.events = pt.events v.err → v'.events = pt'.events v'.err)
    (hrank : pt.reads = true ∨ pt'.rank v' < pt.rank v) (hdone : pt'.done = false) :
    Reached s pt v ⟨s, v', o, []⟩ pt' := by
  refine ⟨hsettles, hfits, Or.inl ⟨rfl, hview, rfl⟩, ?_, fun _ => rfl, ⟨rfl, rfl, hgen⟩,
    fun _ => hevents, fun h => ?_, fun h => ?_⟩
  · rw [hcounted]
  · exact hrank.resolve_left (by simp [h])
  · rw [hdone] at h
    cases h

/-- An action that is a step of the session. -/
theorem reached_step {th : Session.Thread} (x : Session.Shared) (started : List Session.Thread)
    (hsettles : settle (answer o pt.stack) = .running pt'.stack) (hfits : Fits pt' v')
    (hview : pt.view v = [th]) (hstep : (x, pt'.view v' ++ started) ∈ Session.step s.sess th)
    (hcounted : pt'.counted = pt.counted) (hgen : v'.gen = v.gen)
    (hevents : s.sess.listener = true → v.events = pt.events v.err →
      v'.events = pt'.events v'.err)
    (hrank : pt.reads = true ∨ pt'.rank v' < pt.rank v)
    (hdone : pt'.done = false ∨ pt = .gc ∨ pt = .grDone) :
    Reached s pt v ⟨s.take x started, v', o, started⟩ pt' := by
  refine ⟨hsettles, hfits, Or.inr ⟨th, hview, hstep⟩, ?_, fun _ => rfl, ⟨rfl, rfl, hgen⟩,
    hevents, fun h => ?_, fun h => ?_⟩
  · rw [hcounted]
    rfl
  · exact hrank.resolve_left (by simp [h])
  · exact hdone.resolve_left (by simp [h])

theorem callback_ne (hcb : (pt.callback == some .onError) = false) :
    pt.callback ≠ some .onError := by
  intro hc
  rw [hc] at hcb
  cases hcb

/-- The variables of a goroutine that reads, or has just stopped to. -/
theorem Fits.reading (h : Fits pt v) (hreads : pt.reads = true)
    (hcb : (pt'.callback == some .onError) = false) (herr : v'.err = v.err)
    (hstop : v'.stop = v.stop) : Fits pt' v' :=
  ⟨fun _ => herr.trans (h.err hreads), fun _ => hstop.trans (h.stop (Or.inl hreads)),
    fun hc => absurd hc (callback_ne hcb)⟩

/-- The variables in the cleanup, behind `stop`. -/
theorem fits_cleanup (hcounted : pt.counted = false)
    (hcb : pt.callback = some .onError → v.err = true) : Fits pt v := by
  have hbehind : ¬ (pt.reads = true ∨ pt = .grNum) := by
    rintro (hreads | rfl)
    · cases pt <;> simp_all [Point.reads, Point.counted]
    · cases hcounted
  exact ⟨fun h => absurd (Or.inl h) hbehind, fun h => absurd h hbehind, hcb⟩

theorem fits_behind (hcounted : pt.counted = false)
    (hcb : (pt.callback == some .onError) = false) : Fits pt v :=
  fits_cleanup hcounted fun hc => absurd hc (callback_ne hcb)

/-- `stop` gets on, or returns. -/
theorem stopStep_cases {x x' : Session.Shared} {k : Session.Cont} {pc : StopPc}
    {bs : List Session.Thread} (h : (x', bs) ∈ Session.stopStep x k pc) :
    (∃ pc' rest, bs = .stop pc' k :: rest ∧ stopRank pc' < stopRank pc) ∨
      bs = Session.afterStop k := by
  cases pc with
  | doOnce g =>
      simp only [Session.stopStep] at h
      split at h
      · cases List.mem_singleton.mp h
        exact Or.inl ⟨_, _, rfl, by simp [stopRank]⟩
      · cases h
      · cases List.mem_singleton.mp h
        exact Or.inr rfl
  | attrIgnore g found =>
      simp only [Session.stopStep] at h
      split at h <;>
        (cases List.mem_singleton.mp h; exact Or.inl ⟨_, _, rfl, by simp [stopRank]⟩)
  | finish g =>
      cases List.mem_singleton.mp h
      exact Or.inr rfl
  | _ =>
      cases List.mem_singleton.mp h
      exact Or.inl ⟨_, _, rfl, by simp [stopRank]⟩

theorem stopRank_pos (pc : StopPc) : 0 < stopRank pc := by
  cases pc <;> simp [stopRank]

private theorem performed_stop {r : Result} (hr : r ∈ perform s v .stop) :
    ∃ pt', Reached s .stop v r pt' := by
  obtain ⟨⟨x, bs⟩, hout, rfl⟩ := List.mem_map.mp hr
  rcases stopStep_cases hout with ⟨pc, rest, rfl, hrank⟩ | rfl
  · refine ⟨.stop, reached_step x rest rfl (fits_behind rfl rfl) rfl hout rfl rfl
      (fun _ h => h) (Or.inr ?_) (Or.inl rfl)⟩
    show 9 + stopRank pc < 9 + stopRank v.stop
    omega
  · have hgo : ∃ pt', Reached s .stop v (goOn (s.take x []) (v.record .stopped)) pt' := by
      refine ⟨.ifErr, reached_step x [] rfl (fits_behind rfl rfl) rfl ?_ rfl rfl
        (fun _ h => ?_) (Or.inr ?_) (Or.inl rfl)⟩
      · rw [List.append_nil]
        exact hout
      · show v.events ++ [Event.stopped] = [.stopped]
        rw [show v.events = [] from h]
        rfl
      · show 9 < 9 + stopRank v.stop
        have hpos := stopRank_pos v.stop
        omega
    cases v.err <;> exact hgo

theorem performed_gc {r : Result} (hr : r ∈ perform s v .gc) : ∃ pt', Reached s .gc v r pt' := by
  obtain ⟨⟨x, bs⟩, hout, rfl⟩ := List.mem_map.mp hr
  have hbs : bs = .read .exit :: bs.tail := by
    unfold Session.gcStep at hout
    split at hout <;> (cases List.mem_singleton.mp hout; rfl)
  refine ⟨.grDone, reached_step x bs.tail rfl (fits_behind rfl rfl) rfl ?_ rfl rfl
    (fun _ h => ?_) (Or.inr (by simp [Point.rank])) (Or.inr (Or.inl rfl))⟩
  · show (x, .read .exit :: bs.tail) ∈ Session.gcStep s.sess .shutdown
    rw [← hbs]
    exact hout
  · show v.events ++ [Event.gc] = Point.events v.err .grDone
    rw [h]
    cases v.err <;> rfl

/-- The callbacks: how they are entered, end and are left. -/
private theorem performed_enter {cb : Callback} {r : Result} (hfits : Fits (.enter cb) v)
    (hr : r ∈ perform s v (.enter cb)) : ∃ pt', Reached s (.enter cb) v r pt' := by
  cases cb with
  | reader =>
      cases List.mem_singleton.mp hr
      exact ⟨.user .reader, reached_step _ [] rfl (hfits.reading rfl rfl rfl rfl) rfl
        List.mem_cons_self rfl rfl (fun _ h => h) (Or.inl rfl) (Or.inl rfl)⟩
  | onMessage =>
      simp only [perform] at hr
      split at hr
      · next hlis =>
          cases List.mem_singleton.mp hr
          refine ⟨.user .onMessage, reached_step _ [] rfl (hfits.reading rfl rfl rfl rfl) rfl ?_
            rfl rfl (fun _ h => h) (Or.inl rfl) (Or.inl rfl)⟩
          simp [Session.step, Session.taskStep, hlis, Point.view, Locals.call, Callback.event]
      · next hlis =>
          cases List.mem_singleton.mp hr
          refine ⟨.release false, reached_step _ [] rfl (hfits.reading rfl rfl rfl rfl) rfl ?_
            rfl rfl (fun _ h => h) (Or.inl rfl) (Or.inl rfl)⟩
          simp [Session.step, Session.taskStep, hlis, Point.view]
  | onError =>
      have herr := hfits.error rfl
      simp only [perform] at hr
      split at hr
      · next hlis =>
          cases List.mem_singleton.mp hr
          refine ⟨.user .onError, reached_step _ [] rfl (fits_cleanup rfl (fun _ => herr)) rfl
            ?_ rfl rfl (fun _ h => ?_) (Or.inr (by simp [Point.rank])) (Or.inl rfl)⟩
          · simp [Session.step, Session.readStep, hlis, Point.view]
          · show v.events ++ [Event.onError] = [.stopped, .onError]
            rw [h]
            rfl
      · next hlis =>
          cases List.mem_singleton.mp hr
          refine ⟨.enter .onClose, reached_step _ [] rfl (fits_behind rfl rfl) rfl ?_ rfl
            rfl (fun h => absurd h hlis) (Or.inr (by simp [Point.rank])) (Or.inl rfl)⟩
          simp [Session.step, Session.readStep, hlis, Point.view]
  | onClose =>
      simp only [perform] at hr
      split at hr
      · next hlis =>
          cases List.mem_singleton.mp hr
          refine ⟨.user .onClose, reached_step _ [] rfl (fits_behind rfl rfl) rfl ?_ rfl
            rfl (fun _ h => ?_) (Or.inr (by simp [Point.rank])) (Or.inl rfl)⟩
          · simp [Session.step, Session.readStep, hlis, Point.view]
          · show v.events ++ [Event.onClose] = Point.events v.err (.user .onClose)
            rw [h]
            cases v.err <;> rfl
      · next hlis =>
          cases List.mem_singleton.mp hr
          refine ⟨.gc, reached_step _ [] rfl (fits_behind rfl rfl) rfl ?_ rfl rfl
            (fun h => absurd h hlis) (Or.inr (by simp [Point.rank])) (Or.inl rfl)⟩
          simp [Session.step, Session.readStep, hlis, Point.view]

private theorem performed_user {cb : Callback} {r : Result} (hfits : Fits (.user cb) v)
    (hr : r ∈ perform s v (.user cb)) : ∃ pt', Reached s (.user cb) v r pt' := by
  cases cb with
  | reader =>
      simp only [perform, goOn, List.mem_cons, List.not_mem_nil, or_false] at hr
      rcases hr with rfl | rfl | rfl
      · exact ⟨.leave .reader false, reached_silent rfl (hfits.reading rfl rfl rfl rfl) rfl rfl
          rfl id (Or.inl rfl) rfl⟩
      · exact ⟨.leave .reader false, reached_silent rfl (hfits.reading rfl rfl rfl rfl) rfl rfl
          rfl id (Or.inl rfl) rfl⟩
      · exact ⟨.leave .reader true, reached_silent rfl (hfits.reading rfl rfl rfl rfl) rfl rfl
          rfl id (Or.inl rfl) rfl⟩
  | onMessage =>
      simp only [perform, goOn, List.mem_cons, List.not_mem_nil, or_false] at hr
      rcases hr with rfl | rfl
      · exact ⟨.leave .onMessage false, reached_silent rfl (hfits.reading rfl rfl rfl rfl) rfl
          rfl rfl id (Or.inl rfl) rfl⟩
      · exact ⟨.leave .onMessage true, reached_silent rfl (hfits.reading rfl rfl rfl rfl) rfl
          rfl rfl id (Or.inl rfl) rfl⟩
  | onError =>
      have herr := hfits.error rfl
      simp only [perform, goOn, List.mem_cons, List.not_mem_nil, or_false] at hr
      rcases hr with rfl | rfl
      · exact ⟨.leave .onError false, reached_silent rfl (fits_cleanup rfl (fun _ => herr))
          rfl rfl rfl id (Or.inr (by simp [Point.rank])) rfl⟩
      · exact ⟨.leave .onError true, reached_silent rfl (fits_cleanup rfl (fun _ => herr))
          rfl rfl rfl id (Or.inr (by simp [Point.rank])) rfl⟩
  | onClose =>
      simp only [perform, goOn, List.mem_cons, List.not_mem_nil, or_false] at hr
      rcases hr with rfl | rfl
      · exact ⟨.leave .onClose false, reached_silent rfl (fits_behind rfl rfl)
          rfl rfl rfl id (Or.inr (by simp [Point.rank])) rfl⟩
      · exact ⟨.leave .onClose true, reached_silent rfl (fits_behind rfl rfl)
          rfl rfl rfl id (Or.inr (by simp [Point.rank])) rfl⟩

theorem performed_leave {cb : Callback} {p : Bool} {r : Result} (hfits : Fits (.leave cb p) v)
    (hr : r ∈ perform s v (.leave cb)) : ∃ pt', Reached s (.leave cb p) v r pt' := by
  cases List.mem_singleton.mp hr
  cases cb with
  | reader =>
      cases p with
      | false =>
          refine ⟨.dispatch, reached_step _ [] rfl (hfits.reading rfl rfl rfl rfl) rfl ?_ rfl rfl
            (fun _ h => h) (Or.inl rfl) (Or.inl rfl)⟩
          cases hpkg : v.pkg <;> simp [Session.step, Session.readStep, Point.view, hpkg]
      | true =>
          refine ⟨.grNum, reached_step _ [] rfl (hfits.reading rfl rfl rfl rfl) rfl ?_ rfl rfl
            (fun _ h => h) (Or.inl rfl) (Or.inl rfl)⟩
          simp [Session.step, Session.readStep, Point.view, hfits.err rfl]
  | onMessage =>
      refine ⟨.release p, reached_step _ [] (by cases p <;> rfl) (hfits.reading rfl rfl rfl rfl)
        rfl ?_ rfl rfl (fun _ h => h) (Or.inl rfl) (Or.inl rfl)⟩
      cases p <;> simp [Session.step, Session.taskStep, Point.view]
  | onError =>
      have herr := hfits.error rfl
      refine ⟨.enter .onClose, reached_step _ [] (by cases p <;> rfl) (fits_behind rfl rfl)
        rfl List.mem_cons_self rfl rfl (fun _ h => ?_) (Or.inr (by simp [Point.rank])) (Or.inl rfl)⟩
      rw [h, herr]
      rfl
  | onClose =>
      exact ⟨.gc, reached_step _ [] (by cases p <;> rfl) (fits_behind rfl rfl) rfl
        List.mem_cons_self rfl rfl (fun _ h => h) (Or.inr (by simp [Point.rank])) (Or.inl rfl)⟩

private theorem performed_loop {r : Result} (hfits : Fits .loop v) (hr : r ∈ perform s v .loop) :
    ∃ pt', Reached s .loop v r pt' := by
  have herr := hfits.err rfl
  simp only [perform, List.mem_cons, List.not_mem_nil, or_false] at hr
  rcases hr with rfl | rfl | rfl | rfl
  · exact ⟨.enter .reader, reached_step s.sess [] rfl (hfits.reading rfl rfl rfl rfl) rfl
      List.mem_cons_self rfl rfl (fun _ h => h) (Or.inl rfl) (Or.inl rfl)⟩
  · refine ⟨.grNum, reached_step s.sess [] rfl (hfits.reading rfl rfl rfl rfl) rfl ?_ rfl rfl
      (fun _ h => h) (Or.inl rfl) (Or.inl rfl)⟩
    simp [Session.step, Session.readStep, Point.view, herr]
  · refine ⟨.grNum, reached_step s.sess [] rfl ⟨(fun h => by cases h),
      fun _ => hfits.stop (Or.inl rfl), (fun h => by cases h)⟩ rfl
      ?_ rfl rfl (fun _ h => h) (Or.inl rfl) (Or.inl rfl)⟩
    simp [Session.step, Session.readStep, Point.view]
  · refine ⟨.grNum, reached_step s.sess [] rfl (hfits.reading rfl rfl rfl rfl) rfl ?_ rfl rfl
      (fun _ h => h) (Or.inl rfl) (Or.inl rfl)⟩
    simp [Session.step, Session.readStep, Point.view, herr]

private theorem performed_dispatch {r : Result} (hfits : Fits .dispatch v)
    (hr : r ∈ perform s v .dispatch) : ∃ pt', Reached s .dispatch v r pt' := by
  cases hpkg : v.pkg with
  | false =>
      simp only [perform, hpkg, Bool.false_eq_true, if_false] at hr
      cases List.mem_singleton.mp hr
      exact ⟨.loop, reached_silent rfl (hfits.reading rfl rfl rfl rfl)
        (by simp [Point.view, hpkg]) rfl rfl id (Or.inl rfl) rfl⟩
  | true =>
      have hview : Point.dispatch.view v = [.read .addTask] := by simp [Point.view, hpkg]
      simp only [perform, hpkg, if_true] at hr
      split at hr
      · next hpool =>
          cases List.mem_singleton.mp hr
          refine ⟨.loop, reached_step s.sess [.task s.sess.gen false .acquire] rfl
            (hfits.reading rfl rfl rfl rfl) hview ?_ rfl rfl (fun _ h => h) (Or.inl rfl)
            (Or.inl rfl)⟩
          simp [Session.step, Session.readStep, Point.view, hpool]
      · next hpool =>
          cases List.mem_singleton.mp hr
          refine ⟨.acquire, reached_step s.sess [] rfl (hfits.reading rfl rfl rfl rfl) hview ?_
            rfl rfl (fun _ h => h) (Or.inl rfl) (Or.inl rfl)⟩
          simp [Session.step, Session.readStep, Point.view, hpool]

/-- The function that `addTask` calls. -/
private theorem performed_task {r : Result} {pt : Point} {a : Act}
    (hpt : pt = .acquire ∨ pt = .closedCheck ∨ ∃ p, pt = .release p) (hfits : Fits pt v)
    (ha : action pt.stack = some a) (hr : r ∈ perform s v a) : ∃ pt', Reached s pt v r pt' := by
  rcases hpt with rfl | rfl | ⟨p, rfl⟩
  · cases ha
    simp only [perform] at hr
    split at hr
    · next hclosed =>
        cases List.mem_singleton.mp hr
        refine ⟨.loop, reached_step s.sess [] rfl (hfits.reading rfl rfl rfl rfl) rfl ?_ rfl rfl
          (fun _ h => h) (Or.inl rfl) (Or.inl rfl)⟩
        simp [Session.step, Session.taskStep, Session.afterTask, Point.view, hclosed]
    · next hopen =>
        cases List.mem_singleton.mp hr
        refine ⟨.closedCheck, reached_step _ [] rfl (hfits.reading rfl rfl rfl rfl) rfl ?_ rfl rfl
          (fun _ h => h) (Or.inl rfl) (Or.inl rfl)⟩
        simp [Session.step, Session.taskStep, Point.view, hopen]
  · cases ha
    simp only [perform] at hr
    split at hr
    · next hdone =>
        cases List.mem_singleton.mp hr
        refine ⟨.release false, reached_step s.sess [] rfl (hfits.reading rfl rfl rfl rfl) rfl ?_
          rfl rfl (fun _ h => h) (Or.inl rfl) (Or.inl rfl)⟩
        simp [Session.step, Session.taskStep, Point.view, hdone]
    · next hdone =>
        cases List.mem_singleton.mp hr
        refine ⟨.enter .onMessage, reached_step s.sess [] rfl (hfits.reading rfl rfl rfl rfl) rfl
          ?_ rfl rfl (fun _ h => h) (Or.inl rfl) (Or.inl rfl)⟩
        simp [Session.step, Session.taskStep, Point.view, hdone]
  · cases ha
    cases List.mem_singleton.mp hr
    cases p with
    | false =>
        exact ⟨.loop, reached_step _ [] rfl (hfits.reading rfl rfl rfl rfl) rfl
          List.mem_cons_self rfl rfl (fun _ h => h) (Or.inl rfl) (Or.inl rfl)⟩
    | true =>
        refine ⟨.grNum, reached_step _ [] rfl (hfits.reading rfl rfl rfl rfl) rfl ?_ rfl rfl
          (fun _ h => h) (Or.inl rfl) (Or.inl rfl)⟩
        simp [Session.step, Session.taskStep, Session.afterTask, Point.view, hfits.err rfl]

/-- **What an action does.** -/
theorem performed {r : Result} {a : Act} (hfits : Fits pt v) (ha : action pt.stack = some a)
    (hr : r ∈ perform s v a) : ∃ pt', Reached s pt v r pt' := by
  cases pt with
  | loop =>
      cases ha
      exact performed_loop hfits hr
  | dispatch =>
      cases ha
      exact performed_dispatch hfits hr
  | acquire => exact performed_task (Or.inl rfl) hfits ha hr
  | closedCheck => exact performed_task (Or.inr (Or.inl rfl)) hfits ha hr
  | release p => exact performed_task (Or.inr (Or.inr ⟨p, rfl⟩)) hfits ha hr
  | enter cb =>
      cases ha
      exact performed_enter hfits hr
  | user cb =>
      cases ha
      exact performed_user hfits hr
  | leave cb p =>
      cases ha
      exact performed_leave hfits hr
  | grNum =>
      cases ha
      cases List.mem_singleton.mp hr
      have hstop := hfits.stop (Or.inr rfl)
      refine ⟨.stop, rfl, fits_behind rfl rfl, Or.inl ⟨rfl, ?_, rfl⟩, ?_, fun _ => rfl,
        ⟨rfl, rfl, rfl⟩, fun _ h => h, fun _ => ?_, (fun h => by cases h)⟩
      · simp [goOn, Point.view, hstop]
      · show s.grNum - 1 + 1 = s.grNum + 0
        omega
      · show 9 + stopRank v.stop < 21
        rw [hstop]
        decide
  | stop =>
      cases ha
      exact performed_stop hr
  | ifErr =>
      cases ha
      cases herr : v.err with
      | false =>
          simp only [perform, herr, Bool.false_eq_true, if_false] at hr
          cases List.mem_singleton.mp hr
          refine ⟨.enter .onClose, reached_silent rfl (fits_behind rfl rfl)
            (by simp [Point.view, herr]) rfl rfl (fun h => ?_) (Or.inr (by simp [Point.rank])) rfl⟩
          rw [h, herr]
          rfl
      | true =>
          simp only [perform, herr, if_true] at hr
          cases List.mem_singleton.mp hr
          exact ⟨.enter .onError, reached_silent rfl (fits_cleanup rfl (fun _ => herr))
            (by simp [Point.view, herr]) rfl rfl id (Or.inr (by simp [Point.rank])) rfl⟩
  | gc =>
      cases ha
      exact performed_gc hr
  | grDone =>
      cases ha
      cases List.mem_singleton.mp hr
      exact ⟨.ended, reached_step _ [] rfl (fits_behind rfl rfl) rfl List.mem_cons_self rfl
        rfl (fun _ h => h) (Or.inr (by simp [Point.rank])) (Or.inr (Or.inr rfl))⟩
  | ended => cases ha

end Reached

/-! ## The goroutine as a thread of the session -/

def points : List Point :=
  [.loop, .dispatch, .acquire, .closedCheck, .release false, .release true, .grNum, .stop, .ifErr,
    .gc, .grDone, .ended] ++
  [Callback.reader, .onMessage, .onError, .onClose].flatMap fun cb =>
    [.enter cb, .user cb, .leave cb false, .leave cb true]

/-- The action that a goroutine gets to. -/
def locate (g : Goroutine Act) : Option Point := points.find? fun pt => g = .running pt.stack

private theorem locate_stack (pt : Point) : locate (.running pt.stack) = some pt := by
  cases pt with
  | release p => cases p <;> rfl
  | enter cb => cases cb <;> rfl
  | user cb => cases cb <;> rfl
  | leave cb p => cases cb <;> cases p <;> rfl
  | _ => rfl

/-- What `Session.prog` sees of a thread. -/
def Thread.below : Thread → List Session.Thread
  | .sess th => [th]
  | .handle st v => (locate (settle st)).elim [] (Point.view v)

/-- The thread is counted in `grNum`. -/
def Thread.counted : Thread → Bool
  | .sess _ => false
  | .handle st _ => (locate (settle st)).elim false Point.counted

/-- How often the thread is counted in `grWG`. -/
def Thread.gr (a : Thread) : Nat := (a.below.map fun th => th.gr.toNat).sum

/-- The goroutine stands before `pt`, or on the way there. -/
structure At (st : Stack Act) (v : Locals) (pt : Point) : Prop where
  settles : settle st = .running pt.stack
  fits : Fits pt v

def Ok : Thread → Prop
  | .sess _ => True
  | .handle st v => ∃ pt, At st v pt

section Steps

variable {s s' : Shared} {a : Thread} {bs : List Thread} {st : Stack Act} {v : Locals} {pt : Point}

theorem At.locate_eq (h : At st v pt) : locate (settle st) = some pt := by
  rw [h.settles, locate_stack]

theorem At.below (h : At st v pt) : Thread.below (.handle st v) = pt.view v := by
  simp only [Thread.below, h.locate_eq, Option.elim_some]

theorem At.counted (h : At st v pt) : Thread.counted (.handle st v) = pt.counted := by
  simp only [Thread.counted, h.locate_eq, Option.elim_some]

/-- **Step lemma.**  The read goroutine gets on between two actions, ends, or has made an
action. -/
theorem handle_cases (hat : At st v pt) (h : (s', bs) ∈ handleStep s st v) :
    (∃ st', At st' v pt ∧ size st' < size st ∧ s' = s ∧ bs = [.handle st' v]) ∨
      (pt = .ended ∧ s' = { s with ended := ⟨v.gen, v.err, v.events⟩ :: s.ended } ∧ bs = []) ∨
      ∃ r pt', st = pt.stack ∧ Reached s pt v r pt' ∧ s' = r.shared ∧
        bs = .handle (answer r.outcome st) r.locals :: r.started.map .sess := by
  unfold handleStep at h
  split at h
  · next hs =>
      have hset := hat.settles
      rw [settle_of_crashed hs] at hset
      cases hset
  · next st' hs =>
      cases List.mem_singleton.mp h
      have hset := (settle_eq_of_silent hs).symm.trans hat.settles
      exact Or.inl ⟨st', ⟨hset, hat.fits⟩, size_silent hs, rfl, rfl⟩
  · next hs =>
      have hst : st = pt.stack := by
        have hset := (settle_of_none hs).symm.trans hat.settles
        cases hset
        rfl
      split at h
      · next act hact =>
          obtain ⟨r, hr, heq⟩ := List.mem_map.mp h
          cases heq
          obtain ⟨pt', hreached⟩ := performed hat.fits (hst ▸ hact) hr
          exact Or.inr (Or.inr ⟨r, pt', hst, hreached, rfl, rfl⟩)
      · next hact =>
          cases List.mem_singleton.mp h
          refine Or.inr (Or.inl ⟨?_, rfl, rfl⟩)
          rcases silent_eq_none hs with hnil | ⟨act, rest, ds, p, fs, hcons⟩
          · have hloc := hat.locate_eq
            rw [hnil] at hloc
            exact (Option.some.inj hloc).symm
          · rw [hcons] at hact
            cases hact

/-- The thread that the goroutine has become after an action. -/
theorem Reached.at {r : Result} {pt' : Point} (h : Reached s pt v r pt') (hst : st = pt.stack) :
    At (answer r.outcome st) r.locals pt' := by
  subst hst
  exact ⟨h.settles, h.fits⟩

theorem below_sess (bs : List Session.Thread) : (bs.map Thread.sess).flatMap Thread.below = bs :=
  flatMap_map_below fun _ _ => rfl

theorem counted_sess (bs : List Session.Thread) :
    total (fun a => (Thread.counted a).toNat) (bs.map Thread.sess) = 0 :=
  total_map_eq_zero _ _ fun _ _ => rfl

/-- The new read goroutine. -/
theorem at_loop (g : Nat) : At [.enter readGoroutine] (.init g) .loop :=
  ⟨rfl, fun _ => rfl, fun _ => rfl, nofun⟩

/-- What a step does to the session, to its counters and to the records. -/
structure Moved (s : Shared) (a : Thread) (s' : Shared) (bs : List Thread) : Prop where
  ok : ∀ b ∈ bs, Ok b
  sess : (s'.sess = s.sess ∧ bs.flatMap Thread.below = a.below ∧ s'.closeConns = s.closeConns) ∨
    ∃ th, a.below = [th] ∧ (s'.sess, bs.flatMap Thread.below) ∈ Session.step s.sess th ∧
      ∀ g, s'.closeConns g =
        s.closeConns g + (bs.flatMap Thread.below).countP (· == .cleanup g .closeConn)
  grNum : s'.grNum + a.counted.toNat =
      s.grNum + total (fun b => (Thread.counted b).toNat) bs ∨
    (∃ l, a = .sess (.worker (.clear l))) ∧ s'.grNum = 0 ∧
      total (fun b => (Thread.counted b).toNat) bs = 0
  ended : s'.ended = s.ended ∨ ∃ st v, a = .handle st v ∧ At st v .ended ∧
    s'.ended = ⟨v.gen, v.err, v.events⟩ :: s.ended
  crashed : s'.crashed = s.crashed

private theorem moved_sess {th : Session.Thread} (h : (s', bs) ∈ sessStep s th) :
    Moved s (.sess th) s' bs := by
  unfold sessStep at h
  split at h
  · cases List.mem_singleton.mp h
    refine ⟨fun b hb => ?_, Or.inr ⟨_, rfl, List.mem_cons_self, fun g => ?_⟩, Or.inl ?_,
      Or.inl rfl, rfl⟩
    · simp only [List.mem_cons, List.not_mem_nil, or_false] at hb
      rcases hb with rfl | rfl
      · trivial
      · exact ⟨.loop, at_loop _⟩
    · rfl
    · simp only [total_cons, total_nil, (at_loop _).counted]
      show s.grNum + 1 + 0 = s.grNum + (0 + (1 + 0))
      omega
  · next l =>
      obtain ⟨x, bs, hout, rfl, rfl⟩ := mem_liftOutcomes h
      refine ⟨fun b hb => ?_, Or.inr ⟨_, rfl, ?_, fun g => ?_⟩, Or.inr ⟨⟨l, rfl⟩, rfl, ?_⟩,
        Or.inl rfl, rfl⟩
      · obtain ⟨th, -, rfl⟩ := List.mem_map.mp hb
        trivial
      · rw [below_sess]
        exact hout
      · cases List.mem_singleton.mp hout
        rfl
      · exact counted_sess bs
  · obtain ⟨x, bs, hout, rfl, rfl⟩ := mem_liftOutcomes h
    refine ⟨fun b hb => ?_, Or.inr ⟨_, rfl, ?_, fun g => ?_⟩, Or.inl ?_, Or.inl rfl, rfl⟩
    · obtain ⟨th, -, rfl⟩ := List.mem_map.mp hb
      trivial
    · rw [below_sess]
      exact hout
    · rw [below_sess]
      rfl
    · rw [counted_sess]
      rfl

/-- The read goroutine is counted in `grWG` until it ends; it is neither the reset worker, nor
`run`, nor the one that closes the connection. -/
theorem view_cases (pt : Point) (v : Locals) :
    (pt = .ended ∧ pt.view v = []) ∨ ∃ th, pt.view v = [th] ∧ th.gr = true ∧
      th.isClear = false ∧ th.closes = none ∧ ∀ pc, th ≠ .run pc := by
  cases pt with
  | ended => exact Or.inl ⟨rfl, rfl⟩
  | dispatch =>
      cases hpkg : v.pkg
      · exact Or.inr ⟨.read .loop, by simp [Point.view, hpkg], rfl, rfl, rfl, nofun⟩
      · exact Or.inr ⟨.read .addTask, by simp [Point.view, hpkg], rfl, rfl, rfl, nofun⟩
  | ifErr =>
      cases herr : v.err
      · exact Or.inr ⟨.read .onClose, by simp [Point.view, herr], rfl, rfl, rfl, nofun⟩
      · exact Or.inr ⟨.read .onError, by simp [Point.view, herr], rfl, rfl, rfl, nofun⟩
  | enter cb => cases cb <;> exact Or.inr ⟨_, rfl, rfl, rfl, rfl, nofun⟩
  | user cb => cases cb <;> exact Or.inr ⟨_, rfl, rfl, rfl, rfl, nofun⟩
  | leave cb p => cases cb <;> exact Or.inr ⟨_, rfl, rfl, rfl, rfl, nofun⟩
  | _ => exact Or.inr ⟨_, rfl, rfl, rfl, rfl, nofun⟩

private theorem countP_view (pt : Point) (v : Locals) (g : Nat) :
    (pt.view v).countP (· == .cleanup g .closeConn) = 0 := by
  refine List.countP_eq_zero.mpr fun th hth heq => ?_
  cases beq_iff_eq.mp heq
  rcases view_cases pt v with ⟨-, hview⟩ | ⟨th, hview, -, -, hcloses, -⟩
  · rw [hview] at hth
    cases hth
  · rw [hview] at hth
    cases List.mem_singleton.mp hth
    cases hcloses

private theorem moved_handle (hat : At st v pt) (h : (s', bs) ∈ handleStep s st v) :
    Moved s (.handle st v) s' bs := by
  rcases handle_cases hat h with ⟨st', hat', -, rfl, rfl⟩ | ⟨rfl, rfl, rfl⟩ |
    ⟨r, pt', hst, hr, rfl, rfl⟩
  · refine ⟨fun b hb => ?_, Or.inl ⟨rfl, ?_, rfl⟩, Or.inl ?_, Or.inl rfl, rfl⟩
    · cases List.mem_singleton.mp hb
      exact ⟨pt, hat'⟩
    · rw [List.flatMap_singleton, hat'.below, hat.below]
    · simp only [total_cons, total_nil, hat.counted, hat'.counted]
      omega
  · refine ⟨List.forall_mem_nil _, Or.inl ⟨rfl, ?_, rfl⟩, Or.inl ?_,
      Or.inr ⟨st, v, rfl, hat, rfl⟩, rfl⟩
    · rw [hat.below]
      rfl
    · rw [hat.counted]
      rfl
  · have hat' := hr.at hst
    have hbelow : (Thread.handle (answer r.outcome st) r.locals :: r.started.map .sess).flatMap
        Thread.below = pt'.view r.locals ++ r.started := by
      rw [List.flatMap_cons, hat'.below, below_sess]
    refine ⟨fun b hb => ?_, ?_, Or.inl ?_, Or.inl hr.kept.1, hr.kept.2.1⟩
    · rcases List.mem_cons.mp hb with rfl | hb
      · exact ⟨pt', hat'⟩
      · obtain ⟨th, -, rfl⟩ := List.mem_map.mp hb
        trivial
    · rw [hbelow, hat.below]
      rcases hr.sess with ⟨hsess, hview, hstarted⟩ | ⟨th, hview, hstep⟩
      · refine Or.inl ⟨hsess, ?_, funext fun g => ?_⟩
        · rw [hstarted, List.append_nil, hview]
        · rw [hr.closeConns, hstarted]
          rfl
      · refine Or.inr ⟨th, hview, hstep, fun g => ?_⟩
        rw [hr.closeConns, List.countP_append, countP_view, Nat.zero_add]
    · rw [total_cons, counted_sess, hat.counted, hat'.counted, Int.add_zero]
      exact hr.grNum

/-- **Step lemma.**  What every thread does to the session. -/
theorem moved (hok : Ok a) (h : (s', bs) ∈ step s a) : Moved s a s' bs := by
  cases a with
  | sess th => exact moved_sess h
  | handle st v =>
      obtain ⟨pt, hat⟩ := hok
      exact moved_handle hat h

end Steps

/-- **Refinement.**  The session with its read goroutines makes the steps of `Session.prog`. -/
def refinement : Refinement prog Session.prog Ok where
  shared := Shared.sess
  thread := Thread.below
  entry s a pool h := by
    cases a with
    | sess th =>
        exact ⟨trivial, .start pool (a := th) h⟩
    | handle st v => cases h
  step s a s' bs pool hok h := by
    have hm := moved hok h
    refine ⟨hm.ok, ?_⟩
    rcases hm.sess with ⟨hsess, hbelow, -⟩ | ⟨th, hbelow, hstep, -⟩
    · rw [hsess, hbelow]
      exact .refl _ _
    · rw [hbelow]
      exact .fire pool hstep

/-! ## The outline -/

/-- What `run` has found before it starts the read goroutine: a listener, and a connection that
only the cleanup takes away. -/
structure Attached (x : Session.Shared) : Prop where
  listener : x.listener = true
  conn : x.conn.isSome = true ∨ x.cur.once = .finished
  installed : x.cur.installed = true

/-- `stop` is over in generation `g`, and its connection is being closed. -/
structure Closed (x : Session.Shared) (g : Nat) : Prop where
  once : (x.gens g).once = .finished
  cleanup : (x.gens g).cleanup ≠ .fresh

/-- The assertion of a read goroutine. -/
structure HandleAt (x : Session.Shared) (v : Locals) (pt : Point) : Prop where
  events : v.events = pt.events v.err
  live : pt ≠ .ended → v.gen = x.gen ∧ Attached x
  done : pt.done = true → Closed x v.gen

structure Inv (s : Shared) : Prop where
  crashed : s.crashed = false
  wired : s.sess.conn.isSome = true → s.sess.cur.installed = true
  closeConns : ∀ g, s.closeConns g = if (s.sess.gens g).cleanup = .fresh then 0 else 1
  ended : ∀ r ∈ s.ended, Closed s.sess r.gen ∧ r.events = Point.ended.events r.err

def Local (s : Shared) : Thread → Prop
  | .sess th => th.opened = true → Attached s.sess
  | .handle st v => ∃ pt, At st v pt ∧ HandleAt s.sess v pt

/-- The read goroutines in `grNum`, and what `grWG` counts beyond them. -/
inductive Ledger where
  | grNum
  | others

def outline : Outline Shared Thread Ledger where
  shared := Inv
  loc := Local
  val
    | .grNum, s => s.grNum
    | .others, s => s.sess.grWG - s.grNum
  wt
    | .grNum, a => a.counted.toNat
    | .others, a => a.gr - a.counted.toNat

section Session

variable {x x' : Session.Shared} {th : Session.Thread} {bs : List Session.Thread}

theorem Closed.step {g : Nat} (hk : Session.Keeps x th x' bs) (hstep : (x', bs) ∈ Session.step x th)
    (h : Closed x g) : Closed x' g := by
  refine ⟨(hk.frame.gens g).finished h.once, ?_⟩
  rcases Session.step_cleanup hstep g with ⟨hsame, -⟩ | ⟨k, -, -, -, hrun⟩ | ⟨-, hfin⟩
  · rw [hsame]
    exact h.cleanup
  · rw [hrun]
    nofun
  · rw [hfin]
    nofun

/-- Only a reset takes the listener away. -/
theorem Attached.step (hl : Session.Local x th) (hk : Session.Keeps x th x' bs)
    (hstep : (x', bs) ∈ Session.step x th) (hgen : x'.gen = x.gen) (h : Attached x) :
    Attached x' := by
  have hinst : x'.cur.installed = true := by
    have hcur := Session.step_installed hstep h.installed
    rw [← hgen] at hcur
    exact hcur
  have hfin : x.cur.once = .finished → x'.cur.once = .finished := by
    intro honce
    have hcur := (hk.frame.gens x.gen).finished honce
    rw [← hgen] at hcur
    exact hcur
  rcases Session.step_wiring hstep with ⟨hlis, hconn, -⟩ | ⟨⟨k, rfl⟩, hlis, -, -⟩ |
    ⟨-, -, hgen'⟩ | ⟨hconn, hfresh, -, -⟩
  · refine ⟨hlis.trans h.listener, ?_, hinst⟩
    rw [hconn]
    exact h.conn.imp id hfin
  · exact ⟨hlis.trans h.listener, Or.inr (hfin (Session.gc_finished hl)), hinst⟩
  · omega
  · rcases h.conn with hsome | honce
    · rw [hconn] at hsome
      cases hsome
    · rw [hfresh] at honce
      cases honce

/-- A connection belongs to the generation that got it. -/
private theorem wired_step (hstep : (x', bs) ∈ Session.step x th)
    (h : x.conn.isSome = true → x.cur.installed = true) :
    x'.conn.isSome = true → x'.cur.installed = true := by
  intro hconn'
  rcases Session.step_wiring hstep with ⟨-, hconn, hgen⟩ | ⟨-, -, hconn, -⟩ | ⟨-, hconn, -⟩ |
    ⟨-, -, -, -, hinst⟩
  · rw [hconn] at hconn'
    have hcur := Session.step_installed hstep (h hconn')
    rw [← hgen] at hcur
    exact hcur
  · rw [hconn] at hconn'
    cases hconn'
  · rw [hconn] at hconn'
    cases hconn'
  · exact hinst

private theorem total_closes (g : Nat) (bs : List Session.Thread) :
    total (Session.outline.wt (.cleanup g)) bs = bs.countP (· == .cleanup g .closeConn) := by
  rw [← total_toNat]
  refine congrArg (total · bs) (funext fun th => congrArg Bool.toNat ?_)
  cases th with
  | cleanup l pc =>
      cases pc with
      | closeConn =>
          rw [Bool.eq_iff_iff]
          simp [Session.Thread.closes]
      | release =>
          rw [Bool.eq_iff_iff]
          simp [Session.Thread.closes]
  | _ => rfl

/-- `CloseConn` is scheduled when the cleanup of the connection begins, and only then. -/
private theorem closeConns_step (hs : Session.Inv x) (hk : Session.Keeps x th x' bs)
    (hstep : (x', bs) ∈ Session.step x th) (g : Nat) :
    (if (x.gens g).cleanup = .fresh then 0 else 1) + bs.countP (· == .cleanup g .closeConn) =
      if (x'.gens g).cleanup = .fresh then 0 else 1 := by
  have hledger := hk.keeps.ledger (.cleanup g)
  rw [total_closes] at hledger
  have hval : ∀ y : Session.Shared,
      Session.outline.val (.cleanup g) y = Session.Once.run (y.gens g).cleanup := fun _ => rfl
  have hone := total_closes g [th]
  rw [total_cons, total_nil, List.countP_singleton] at hone
  rw [hval, hval] at hledger
  rcases Session.step_cleanup hstep g with ⟨hsame, hne⟩ | ⟨k, rfl, rfl, hattrs, hrun⟩ |
    ⟨rfl, hfin⟩
  · simp only [beq_iff_eq, hne, if_false] at hone
    rw [hsame] at hledger ⊢
    omega
  · have hfresh := hs.cleanup hattrs
    simp only [Session.Shared.cur] at hfresh
    rw [hrun, hfresh] at hledger ⊢
    simp only [Session.Once.run_running, Session.Once.run_fresh] at hledger
    simp at hone ⊢
    omega
  · -- the goroutine of `CloseConn` is booked, so the cleanup is running
    cases List.mem_singleton.mp hstep
    rw [hfin] at hledger ⊢
    simp only [beq_self_eq_true, if_true] at hone
    cases hcl : (x.gens g).cleanup with
    | fresh =>
        rw [hcl] at hledger
        simp at hledger hone
        omega
    | _ => simp

theorem gen_step (hk : Session.Keeps x th x' bs) (hth : th.isClear = false) : x'.gen = x.gen := by
  rcases hk.frame.gen with hgen | ⟨hclear, -⟩
  · exact hgen
  · rw [hth] at hclear
    cases hclear

private theorem isClear_opened (h : th.opened = true) : th.isClear = false := by
  cases th with
  | run pc => rfl
  | _ => cases h

private theorem gr_opened (h : th.opened = true) : th.gr = true := by
  cases th with
  | run pc =>
      cases pc with
      | register => cases h
      | _ => rfl
  | _ => cases h

end Session

section Outline

variable {s s' : Shared} {a b : Thread} {bs : List Thread} {th : Session.Thread}
variable {st : Stack Act} {v : Locals} {pt : Point}

theorem At.gr (h : At st v pt) (hpt : pt ≠ .ended) : Thread.gr (.handle st v) = 1 := by
  rcases view_cases pt v with ⟨hend, -⟩ | ⟨th, hview, hgr, -⟩
  · exact absurd hend hpt
  · simp [Thread.gr, h.below, hview, hgr]

/-- `grWG` counts what `grNum` counts. -/
private theorem counted_le (h : Ok a) : a.counted.toNat ≤ a.gr := by
  cases a with
  | sess th => exact Nat.zero_le _
  | handle st v =>
      obtain ⟨pt, hat⟩ := h
      by_cases hpt : pt = .ended
      · subst hpt
        rw [hat.counted]
        exact Nat.zero_le _
      · rw [hat.gr hpt]
        exact Bool.toNat_le _

theorem sess_keeps (hK : refinement.Knows Session.outline s a) (hth : th ∈ a.below)
    {x : Session.Shared} {ts : List Session.Thread} (hstep : (x, ts) ∈ Session.step s.sess th) :
    Session.Keeps s.sess th x ts := by
  obtain ⟨-, hinv, hbelow⟩ := hK
  exact Session.keeps_step hinv (hbelow th hth).1 (hbelow th hth).2 hstep

theorem sess_local (hK : refinement.Knows Session.outline s a) (hth : th ∈ a.below) :
    Session.Local s.sess th := (hK.2.2 th hth).1

/-- A goroutine in `grWG` keeps the generation from changing. -/
private theorem gen_stays (hK : refinement.Knows Session.outline s a) (hth : th ∈ a.below)
    {x : Session.Shared} {ts : List Session.Thread} (hstep : (x, ts) ∈ Session.step s.sess th)
    (hgr : 0 < s.sess.grWG) : x.gen = s.sess.gen := by
  refine gen_step (sess_keeps hK hth hstep) ?_
  have hloc := sess_local hK hth
  cases th with
  | worker pc =>
      cases pc with
      | clear l =>
          have hat : Session.WorkerAt s.sess (.clear l) := hloc
          have hzero := hat.2.2.1
          omega
      | _ => rfl
  | _ => rfl

/-- **The ledgers.** -/
theorem ledger_step (hK : refinement.Knows Session.outline s a)
    (hwt : ∀ i, (outline.wt i a : Int) ≤ outline.val i s) (hm : Moved s a s' bs) (i : Ledger) :
    outline.val i s' + outline.wt i a = outline.val i s + total (outline.wt i) bs := by
  have hnum : (a.counted.toNat : Int) ≤ s.grNum := hwt .grNum
  have hothers : ((a.gr - a.counted.toNat : Nat) : Int) ≤ s.sess.grWG - s.grNum := hwt .others
  have hgrNum : s'.grNum + a.counted.toNat =
      s.grNum + total (fun b => (Thread.counted b).toNat) bs := by
    rcases hm.grNum with h | ⟨⟨l, rfl⟩, hzero, hnone⟩
    · exact h
    · -- the reset has waited for `grWG`
      have hat : Session.WorkerAt s.sess (.clear l) := sess_local hK List.mem_cons_self
      have hgr := hat.2.2.1
      rw [hzero, hnone]
      show (0 : Int) + 0 = s.grNum + 0
      have hnum : (0 : Int) ≤ s.grNum := hnum
      omega
  have hgr : s'.sess.grWG + a.gr = s.sess.grWG + total Thread.gr bs := by
    have htotal : ∀ pool, total Thread.gr pool =
        total (Session.outline.wt .gr) (pool.flatMap Thread.below) := by
      intro pool
      rw [total_flatMap]
      rfl
    rcases hm.sess with ⟨hsess, hbelow, -⟩ | ⟨th, hbelow, hstep, -⟩
    · have hone : (a.gr : Int) = total Thread.gr [a] := by simp
      rw [htotal, hbelow, hsess, hone, htotal, List.flatMap_singleton]
    · have hk := sess_keeps hK (by rw [hbelow]; exact List.mem_cons_self) hstep
      have hledger := hk.keeps.ledger .gr
      have hone : a.gr = Session.outline.wt .gr th := by
        simp only [Thread.gr, hbelow]
        exact Nat.add_zero _
      rw [htotal, hone]
      exact hledger
  have hsplit : total Thread.gr bs =
      total (outline.wt .others) bs + total (fun b => (Thread.counted b).toNat) bs :=
    total_add fun b hb => (Nat.sub_add_cancel (counted_le (hm.ok b hb))).symm
  cases i with
  | grNum => exact hgrNum
  | others =>
      have hle := counted_le hK.1
      show s'.sess.grWG - s'.grNum + ((a.gr - a.counted.toNat : Nat) : Int) =
        s.sess.grWG - s.grNum + total (outline.wt .others) bs
      omega

/-- **The invariant.** -/
theorem inv_step (hK : refinement.Knows Session.outline s a) (hs : Inv s) (hl : Local s a)
    (hm : Moved s a s' bs) : Inv s' := by
  have hclosed : ∀ g, Closed s.sess g → Closed s'.sess g := by
    intro g hg
    rcases hm.sess with ⟨hsess, -, -⟩ | ⟨th, hbelow, hstep, -⟩
    · rw [hsess]
      exact hg
    · exact hg.step (sess_keeps hK (by rw [hbelow]; exact List.mem_cons_self) hstep) hstep
  refine ⟨hm.crashed.trans hs.crashed, ?_, fun g => ?_, fun r hr => ?_⟩
  · rcases hm.sess with ⟨hsess, -, -⟩ | ⟨th, -, hstep, -⟩
    · rw [hsess]
      exact hs.wired
    · exact wired_step hstep hs.wired
  · rcases hm.sess with ⟨hsess, -, hconns⟩ | ⟨th, hbelow, hstep, hconns⟩
    · rw [hsess, hconns]
      exact hs.closeConns g
    · rw [hconns, hs.closeConns]
      exact closeConns_step hK.2.1
        (sess_keeps hK (by rw [hbelow]; exact List.mem_cons_self) hstep) hstep g
  · rcases hm.ended with hsame | ⟨st, v, rfl, hat, hcons⟩
    · rw [hsame] at hr
      exact ⟨hclosed _ (hs.ended r hr).1, (hs.ended r hr).2⟩
    · rw [hcons] at hr
      rcases List.mem_cons.mp hr with rfl | hr
      · obtain ⟨pt, hat', hpt⟩ := hl
        cases Option.some.inj (hat.locate_eq.symm.trans hat'.locate_eq)
        exact ⟨hclosed _ (hpt.done rfl), hpt.events⟩
      · exact ⟨hclosed _ (hs.ended r hr).1, (hs.ended r hr).2⟩

theorem Attached.addGr {x : Session.Shared} (h : Attached x) (n : Int) : Attached (x.addGr n) :=
  ⟨h.listener, h.conn, h.installed⟩

/-- The threads that a thread of the session becomes. -/
private theorem local_sess (hK : refinement.Knows Session.outline s (.sess th)) (hs : Inv s)
    (hl : Local s (.sess th)) (h : (s', bs) ∈ sessStep s th) : ∀ b ∈ bs, Local s' b := by
  have hnext : ∀ {x : Session.Shared} {ts : List Session.Thread} {t : Session.Thread},
      (x, ts) ∈ Session.step s.sess th → t ∈ ts → t.opened = true → Attached x := by
    intro x ts t hstep ht hopened
    have hmem : th ∈ Thread.below (.sess th) := List.mem_cons_self
    rcases Session.step_opened hstep ht hopened with hth | ⟨-, rfl, hconn, hlis⟩
    · have hk := sess_keeps hK hmem hstep
      exact (hl hth).step (sess_local hK hmem) hk hstep (gen_step hk (isClear_opened hth))
    · exact ⟨hlis, Or.inl hconn, hs.wired hconn⟩
  intro b hb
  unfold sessStep at h
  split at h
  · cases List.mem_singleton.mp h
    simp only [List.mem_cons, List.not_mem_nil, or_false] at hb
    rcases hb with rfl | rfl
    · intro hopened
      cases hopened
    · exact ⟨.loop, at_loop _, rfl, fun _ => ⟨rfl, (hl rfl).addGr 1⟩, (fun h => by cases h)⟩
  · obtain ⟨x, ts, hout, rfl, rfl⟩ := mem_liftOutcomes h
    obtain ⟨t, ht, rfl⟩ := List.mem_map.mp hb
    exact hnext hout ht
  · obtain ⟨x, ts, hout, rfl, rfl⟩ := mem_liftOutcomes h
    obtain ⟨t, ht, rfl⟩ := List.mem_map.mp hb
    exact hnext hout ht

/-- `gc` leaves no connection behind. -/
private theorem conn_gc {x x' : Session.Shared} {k : Session.GcCont} {ts : List Session.Thread}
    (hs : Session.Inv x) (h : (x', ts) ∈ Session.gcStep x k) : x'.conn = none := by
  unfold Session.gcStep at h
  split at h
  · cases List.mem_singleton.mp h
    rfl
  · cases List.mem_singleton.mp h
    rfl
  · next hattrs =>
      cases List.mem_singleton.mp h
      exact hs.detached hattrs

/-- After `gc` the connection of the generation is being closed. -/
private theorem closed_gc {x x' : Session.Shared} {k : Session.GcCont} {ts : List Session.Thread}
    (hs : Session.Inv x) (hl : Session.Local x (.gc k)) (hk : Session.Keeps x (.gc k) x' ts)
    (hstep : (x', ts) ∈ Session.step x (.gc k)) (hatt : Attached x) : Closed x' x.gen := by
  refine ⟨(hk.frame.gens x.gen).finished (Session.gc_finished hl), ?_⟩
  have hinstalled := Session.step_installed hstep hatt.installed
  rcases hk.keeps.inv.installed x.gen hinstalled with ⟨-, hconn⟩ | hcl
  · rw [conn_gc hs hstep] at hconn
    cases hconn
  · exact hcl

/-- The threads that a read goroutine becomes. -/
private theorem local_handle (hK : refinement.Knows Session.outline s (.handle st v))
    (hl : Local s (.handle st v)) (h : (s', bs) ∈ handleStep s st v) : ∀ b ∈ bs, Local s' b := by
  obtain ⟨pt, hat, hpt⟩ := hl
  rcases handle_cases hat h with ⟨st', hat', -, rfl, rfl⟩ | ⟨rfl, rfl, rfl⟩ |
    ⟨r, pt', hst, hr, rfl, rfl⟩
  · intro b hb
    cases List.mem_singleton.mp hb
    exact ⟨pt, hat', hpt⟩
  · exact List.forall_mem_nil _
  · have hne : pt ≠ .ended := by
      rintro rfl
      exact Nat.not_lt_zero _ (hr.rank rfl)
    obtain ⟨hgen, hatt⟩ := hpt.live hne
    have hevents := hr.events hatt.listener hpt.events
    have hkept := hr.kept.2.2
    have hmine : HandleAt r.shared.sess r.locals pt' ∧ ∀ t ∈ r.started, t.opened = false := by
      rcases hr.sess with ⟨hsess, hview, hstarted⟩ | ⟨th, hview, hstep⟩
      · refine ⟨⟨hevents, fun _ => ?_, fun hdone => ?_⟩, ?_⟩
        · rw [hkept, hsess]
          exact ⟨hgen, hatt⟩
        · rw [hkept, hsess]
          rcases hr.done hdone with rfl | rfl
          · cases pt' with
            | grDone => cases hview
            | ended => cases hview
            | _ => cases hdone
          · exact hpt.done rfl
        · rw [hstarted]
          exact List.forall_mem_nil _
      · have hmem : th ∈ Thread.below (.handle st v) := by
          rw [hat.below, hview]
          exact List.mem_cons_self
        have hk := sess_keeps hK hmem hstep
        have hloc := sess_local hK hmem
        rcases view_cases pt v with ⟨hend, -⟩ | ⟨th', hview', -, hclear, -, hrun⟩
        · exact absurd hend hne
        · cases hview.symm.trans hview'
          have hgen' := gen_step hk hclear
          refine ⟨⟨hevents, fun _ => ?_, fun hdone => ?_⟩, fun t ht => ?_⟩
          · rw [hkept, hgen']
            exact ⟨hgen, hatt.step hloc hk hstep hgen'⟩
          · rw [hkept]
            rcases hr.done hdone with rfl | rfl
            · cases hview
              rw [hgen]
              exact closed_gc hK.2.1 hloc hk hstep hatt
            · exact (hpt.done rfl).step hk hstep
          · by_contra hopened
            rcases Session.step_opened hstep (List.mem_append_right _ ht) (by simpa using hopened)
              with hth | ⟨hth, -⟩
            · cases th with
              | run pc => exact hrun pc rfl
              | _ => cases hth
            · exact hrun _ hth
    intro b hb
    rcases List.mem_cons.mp hb with rfl | hb
    · exact ⟨pt', hr.at hst, hmine.1⟩
    · obtain ⟨t, ht, rfl⟩ := List.mem_map.mp hb
      intro hopened
      rw [hmine.2 t ht] at hopened
      cases hopened

/-- A thread that has not moved. -/
private theorem local_other (hK : refinement.Knows Session.outline s a) (hb : Local s b)
    (hpair : ∀ i, (outline.wt i a : Int) + outline.wt i b ≤ outline.val i s)
    (hm : Moved s a s' bs) : Local s' b := by
  rcases hm.sess with ⟨hsess, -, -⟩ | ⟨th, hbelow, hstep, -⟩
  · cases b with
    | sess th => exact fun h => hsess ▸ hb h
    | handle st v =>
        obtain ⟨pt, hat, hpt⟩ := hb
        exact ⟨pt, hat, hsess ▸ hpt⟩
  · have hmem : th ∈ a.below := by rw [hbelow]; exact List.mem_cons_self
    have hk := sess_keeps hK hmem hstep
    have hstays : 0 < b.gr → Attached s.sess → s'.sess.gen = s.sess.gen ∧ Attached s'.sess := by
      intro hgr hatt
      have hnum : (a.counted.toNat : Int) + b.counted.toNat ≤ s.grNum := hpair .grNum
      have hothers : ((a.gr - a.counted.toNat : Nat) : Int) + ((b.gr - b.counted.toNat : Nat) : Int)
          ≤ s.sess.grWG - s.grNum := hpair .others
      have hgen := gen_stays hK hmem hstep (by omega)
      exact ⟨hgen, hatt.step (sess_local hK hmem) hk hstep hgen⟩
    cases b with
    | sess t =>
        intro hopened
        refine (hstays ?_ (hb hopened)).2
        simp [Thread.gr, Thread.below, gr_opened hopened]
    | handle st v =>
        obtain ⟨pt, hat, hpt⟩ := hb
        refine ⟨pt, hat, hpt.events, fun hne => ?_, fun hdone => (hpt.done hdone).step hk hstep⟩
        obtain ⟨hgen, hatt⟩ := hpt.live hne
        obtain ⟨hgen', hatt'⟩ := hstays (by rw [hat.gr hne]; exact Nat.one_pos) hatt
        exact ⟨hgen.trans hgen'.symm, hatt'⟩

private theorem outline_valid : outline.ValidGiven prog (refinement.Knows Session.outline) where
  entry s a _ h := by
    cases a with
    | handle st v => cases h
    | sess th =>
        have hentry : Session.entry s.sess th = true := h
        unfold Session.entry at hentry
        split at hentry
        case h_8 => cases hentry
        all_goals exact ⟨nofun, fun i => by cases i <;> rfl⟩
  own s a s' bs hK hs hl hwt h := by
    have hm := moved hK.1 h
    refine ⟨inv_step hK hs hl hm, ?_, ledger_step hK hwt hm⟩
    cases a with
    | sess th => exact local_sess hK hs hl h
    | handle st v => exact local_handle hK hl h
  other s a b s' bs hK _ _ hb hpair h := local_other hK hb hpair (moved hK.1 h)

private theorem outline_initial (cfg : Config) : outline.Holds (initial cfg) := by
  refine ⟨⟨rfl, fun _ => ?_, fun g => ?_, List.forall_mem_nil _⟩, List.forall_mem_nil _,
    fun i => by cases i <;> rfl⟩
  · simp [initial, Session.Shared.init, Session.Shared.cur, Session.Gen.carry]
  · have hfresh : ((initial cfg).shared.sess.gens g).cleanup = .fresh := by
      simp only [initial, Session.Shared.init]
      split <;> rfl
    rw [hfresh]
    rfl

end Outline

/-! ## The cleanup comes to its end -/

/-- The thread is in a `stop` call, or is a read goroutine whose loop has ended. -/
def Thread.past : Thread → Bool
  | .sess (.stop _ _) => true
  | .sess _ => false
  | .handle st _ => (locate (settle st)).elim false fun pt => !pt.reads

/-- What is left of that: the actions first, then the steps before the next one. -/
def Thread.work : Thread → Nat × Nat
  | .sess (.stop pc _) => (stopRank pc, 0)
  | .sess _ => (0, 0)
  | .handle st v => ((locate (settle st)).elim 0 (Point.rank v), size st)

/-- The thread is in the body of the `stop` of generation `g`. -/
def Thread.inBody (a : Thread) (g : Nat) : Bool := a.below.any fun th => th.body == some g

/-- The thread has a step, or waits in `once.Do` for a thread in the body that has one; and every
step of it leaves less to do. -/
structure Goes (c : Conf Shared Thread) (a : Thread) : Prop where
  runs : step c.shared a ≠ [] ∨ ∃ g k, a.below = [.stop (.doOnce g) k] ∧
    ∃ b ∈ c.pool, b.inBody g = true ∧ step c.shared b ≠ []
  shrinks : ∀ s' b rest, (s', b :: rest) ∈ step c.shared a →
    Prod.Lex (· < ·) (· < ·) b.work a.work

section Progress

variable {s s' : Shared} {a b : Thread} {rest : List Thread} {st : Stack Act} {v : Locals}
variable {pt : Point}

/-- `stop` only waits for another `stop`. -/
theorem stopStep_runs (x : Session.Shared) (k : Session.Cont) (pc : StopPc) :
    Session.stopStep x k pc ≠ [] ∨ ∃ g, pc = .doOnce g ∧ (x.gens g).once = .running := by
  cases pc with
  | doOnce g =>
      cases honce : (x.gens g).once with
      | running => exact Or.inr ⟨g, rfl, honce⟩
      | _ => exact Or.inl (by simp [Session.stopStep, honce])
  | attrIgnore g found =>
      refine Or.inl ?_
      simp only [Session.stopStep]
      split <;> simp
  | _ => exact Or.inl (by simp [Session.stopStep])

private theorem perform_runs (s : Shared) (v : Locals) (act : Act) :
    perform s v act ≠ [] ∨
      act = .stop ∧ ∃ g, v.stop = .doOnce g ∧ (s.sess.gens g).once = .running := by
  cases act with
  | stop =>
      rcases stopStep_runs s.sess (.shutdown v.err) v.stop with hne | hwait
      · exact Or.inl (by simpa [perform] using hne)
      · exact Or.inr ⟨rfl, hwait⟩
  | gc =>
      refine Or.inl ?_
      simp only [perform, Session.gcStep]
      split <;> simp
  | dispatch =>
      refine Or.inl ?_
      simp only [perform]
      split
      · split <;> simp
      · simp
  | acquire =>
      refine Or.inl ?_
      simp only [perform]
      split <;> simp
  | closedCheck =>
      refine Or.inl ?_
      simp only [perform]
      split <;> simp
  | ifErr =>
      refine Or.inl ?_
      simp only [perform]
      split <;> simp
  | enter cb =>
      refine Or.inl ?_
      cases cb <;> simp only [perform] <;> (try split) <;> simp
  | user cb => cases cb <;> exact Or.inl (by simp [perform])
  | _ => exact Or.inl (by simp [perform])

theorem handle_runs (hat : At st v pt) (s : Shared) : handleStep s st v ≠ [] ∨
    pt = .stop ∧ ∃ g, v.stop = .doOnce g ∧ (s.sess.gens g).once = .running := by
  cases hs : silent st with
  | some g =>
      cases g with
      | crashed => exact Or.inl (by simp [handleStep, hs])
      | running st' => exact Or.inl (by simp [handleStep, hs])
  | none =>
      cases hact : action st with
      | none => exact Or.inl (by simp [handleStep, hs, hact])
      | some act =>
          rcases perform_runs s v act with hne | ⟨rfl, hwait⟩
          · exact Or.inl (by simpa [handleStep, hs, hact] using hne)
          · refine Or.inr ⟨?_, hwait⟩
            cases (settle_of_none hs).symm.trans hat.settles
            cases pt with
            | stop => rfl
            | _ => cases hact

theorem step_stop (s : Shared) (pc : StopPc) (k : Session.Cont) :
    step s (.sess (.stop pc k)) =
      liftOutcomes s.take .sess (Session.stopStep s.sess k pc) := rfl

/-- A thread in the body of `stop` does not wait. -/
private theorem body_runs (hok : Ok b) {g : Nat} (hbody : b.inBody g = true) (s : Shared) :
    step s b ≠ [] := by
  obtain ⟨th, hth, hg⟩ := List.any_eq_true.mp hbody
  have hg := beq_iff_eq.mp hg
  cases b with
  | sess th' =>
      cases List.mem_singleton.mp hth
      cases th with
      | stop pc k =>
          rw [step_stop]
          rcases stopStep_runs s.sess k pc with hne | ⟨j, rfl, -⟩
          · simpa [liftOutcomes] using hne
          · cases hg
      | _ => cases hg
  | handle st v =>
      obtain ⟨pt, hat⟩ := hok
      rcases handle_runs hat s with hne | ⟨rfl, j, hstop, -⟩
      · exact hne
      · rw [hat.below] at hth
        cases List.mem_singleton.mp hth
        rw [hstop] at hg
        cases hg

private theorem shrinks_stop {pc : StopPc} {k : Session.Cont}
    (h : (s', b :: rest) ∈ step s (.sess (.stop pc k))) :
    Prod.Lex (· < ·) (· < ·) b.work (Thread.work (.sess (.stop pc k))) := by
  rw [step_stop] at h
  obtain ⟨x, ts, hout, -, hts⟩ := mem_liftOutcomes h
  rcases stopStep_cases hout with ⟨pc', ts', rfl, hrank⟩ | rfl
  · cases hts
    exact .left _ _ hrank
  · have hb : b.work = (0, 0) := by
      cases k with
      | shutdown err => cases err <;> (cases hts; rfl)
      | close => cases hts
      | _ => cases hts; rfl
    rw [hb]
    exact .left _ _ (stopRank_pos pc)

theorem At.work (h : At st v pt) : Thread.work (.handle st v) = (pt.rank v, size st) := by
  simp only [Thread.work, h.locate_eq, Option.elim_some]

private theorem shrinks_handle (hat : At st v pt) (hpast : pt.reads = false)
    (h : (s', b :: rest) ∈ handleStep s st v) :
    Prod.Lex (· < ·) (· < ·) b.work (Thread.work (.handle st v)) := by
  rw [hat.work]
  rcases handle_cases hat h with ⟨st', hat', hsize, -, hbs⟩ | ⟨-, -, hbs⟩ |
    ⟨r, pt', hst, hr, -, hbs⟩
  · cases hbs
    rw [hat'.work]
    exact .right _ hsize
  · cases hbs
  · cases hbs
    rw [(hr.at hst).work]
    exact .left _ _ (hr.rank hpast)

end Progress

/-! ## Runs -/

section Runs

variable {cfg : Config} {c : Conf Shared Thread}

theorem ok_initial (cfg : Config) : ∀ a ∈ (initial cfg).pool, Ok a := by
  intro a ha
  cases ha

theorem outline_below (cfg : Config) : Session.outline.Holds (refinement.conf (initial cfg)) :=
  Session.outline_initial cfg

theorem holds_below (h : prog.Reaches (initial cfg) c) :
    Session.outline.Holds (refinement.conf c) :=
  refinement.holds Session.outline_valid (ok_initial cfg) (outline_below cfg) h

private theorem holds_reaches (h : prog.Reaches (initial cfg) c) : outline.Holds c :=
  outline_valid.holds_run
    (refinement.knows Session.outline_valid (ok_initial cfg) (outline_below cfg))
    (outline_initial cfg) h

theorem ok_reaches (h : prog.Reaches (initial cfg) c) : ∀ a ∈ c.pool, Ok a :=
  (refinement.reaches (ok_initial cfg) h).1

/-- While a `stop` is running, some thread is in its body. -/
private theorem body_of_running (h : prog.Reaches (initial cfg) c) {g : Nat}
    (hrun : (c.shared.sess.gens g).once = .running) :
    ∃ b ∈ c.pool, b.inBody g = true ∧ step c.shared b ≠ [] := by
  have hone : total (Session.outline.wt (.body g)) (refinement.conf c).pool = 1 := by
    rw [← (holds_below h).ledger (.body g)]
    show (Session.Once.run (c.shared.sess.gens g).once : Int) = 1
    rw [hrun]
    rfl
  have hmem : ∃ th ∈ (refinement.conf c).pool, th.body = some g := by
    by_contra hnone
    have hzero := total_eq_zero (Session.outline.wt (.body g)) fun th hth => by
      have hne : th.body ≠ some g := fun hg => hnone ⟨th, hth, hg⟩
      show (th.body == some g).toNat = 0
      simp [hne]
    omega
  obtain ⟨th, hth, hg⟩ := hmem
  obtain ⟨b, hb, hth⟩ := List.mem_flatMap.mp hth
  have hbody : b.inBody g = true := List.any_eq_true.mpr ⟨th, hth, beq_iff_eq.mpr hg⟩
  exact ⟨b, hb, hbody, body_runs (ok_reaches h b hb) hbody c.shared⟩

/-- **The cleanup goes on.** -/
theorem goes (h : prog.Reaches (initial cfg) c) {a : Thread} (ha : a ∈ c.pool)
    (hpast : a.past = true) : Goes c a := by
  cases a with
  | sess th =>
      cases th with
      | stop pc k =>
          refine ⟨?_, fun s' b rest hstep => shrinks_stop hstep⟩
          rcases stopStep_runs c.shared.sess k pc with hne | ⟨g, rfl, hrun⟩
          · refine Or.inl ?_
            rw [step_stop]
            simpa [liftOutcomes] using hne
          · exact Or.inr ⟨g, k, rfl, body_of_running h hrun⟩
      | _ => cases hpast
  | handle st v =>
      obtain ⟨pt, hat⟩ := ok_reaches h _ ha
      have hreads : pt.reads = false := by
        simpa [Thread.past, hat.locate_eq] using hpast
      refine ⟨?_, fun s' b rest hstep => shrinks_handle hat hreads hstep⟩
      rcases handle_runs hat c.shared with hne | ⟨rfl, g, hstop, hrun⟩
      · exact Or.inl hne
      · refine Or.inr ⟨g, .shutdown v.err, ?_, body_of_running h hrun⟩
        rw [hat.below, ← hstop]
        rfl

/-- The thread executes application code. -/
def Thread.calls (a : Thread) : Bool := a.below.any Session.Thread.calls

private theorem depth_eq (h : prog.Reaches (initial cfg) c) :
    c.shared.sess.callbackDepth = c.pool.countP Thread.calls := by
  rw [← total_toNat]
  refine ((holds_below h).ledger .depth).trans ?_
  refine (total_flatMap _ _ _).trans (congrArg (total · c.pool) (funext fun a => ?_))
  have hone : a.below = [] ∨ ∃ th, a.below = [th] := by
    cases a with
    | sess th => exact Or.inr ⟨th, rfl⟩
    | handle st v =>
        simp only [Thread.below]
        cases locate (settle st) with
        | none => exact Or.inl rfl
        | some pt =>
            rcases view_cases pt v with ⟨-, hview⟩ | ⟨th, hview, -⟩
            · exact Or.inl hview
            · exact Or.inr ⟨th, hview⟩
  show (a.below.map fun th => th.calls.toNat).sum = a.calls.toNat
  rcases hone with hbelow | ⟨th, hbelow⟩
  · simp [Thread.calls, hbelow]
  · simp [Thread.calls, hbelow]

/-- What a read goroutine leaves behind: the close sequence has run, `OnError` was called exactly
for an error of the read loop, `OnClose` once after it, then `gc`; and `CloseConn` has been
scheduled once. -/
structure Cleaned (s : Shared) (r : Record) : Prop where
  once : (s.sess.gens r.gen).once = .finished
  events : r.events =
    if r.err then [.stopped, .onError, .onClose, .gc] else [.stopped, .onClose, .gc]
  closeConn : s.closeConns r.gen = 1

/-- **Cleanup survives every panic.**  Whatever the application code on it does, no panic leaves
a read goroutine, and each one that has ended has cleaned up, whatever happens later.  One whose
loop has ended goes on to its end.  And `grNum` and `callbackDepth` count just the read
goroutines that read and the threads in application code. -/
theorem cleanup_survives_panics (cfg : Config) (c : Conf Shared Thread)
    (h : prog.Reaches (initial cfg) c) :
    c.shared.crashed = false ∧ (∀ r ∈ c.shared.ended, Cleaned c.shared r) ∧
      (∀ a ∈ c.pool, a.past = true → Goes c a) ∧
      c.shared.grNum = c.pool.countP Thread.counted ∧
      c.shared.sess.callbackDepth = c.pool.countP Thread.calls := by
  have hholds := holds_reaches h
  refine ⟨hholds.shared.crashed, fun r hr => ?_, fun a ha hpast => goes h ha hpast, ?_, depth_eq h⟩
  · obtain ⟨hclosed, hevents⟩ := hholds.shared.ended r hr
    refine ⟨hclosed.once, hevents, ?_⟩
    rw [hholds.shared.closeConns, if_neg hclosed.cleanup]
  · rw [← total_toNat]
    exact hholds.ledger .grNum

/-- The Reader panics, and then `OnClose` in the cleanup. -/
theorem cleanup_survives_panics_twice :
    ∃ c, prog.Reaches (initial ⟨⟨false, none⟩, none, true, true⟩) c ∧
      c.shared.ended = [⟨0, false, [.stopped, .onClose, .gc]⟩] ∧ c.shared.crashed = false ∧
      c.shared.closeConns 0 = 1 := by
  have hrun : ∃ c ∈ prog.run (initial ⟨⟨false, none⟩, none, true, true⟩) (List.flatten
      [[.start (.sess (.run .register))], List.replicate 6 (.fire 0 0),
        List.replicate 7 (.fire 1 0), [.fire 1 2], List.replicate 24 (.fire 1 0),
        [.fire 1 1], List.replicate 18 (.fire 1 0)]),
      c.shared.ended = [⟨0, false, [.stopped, .onClose, .gc]⟩] := by decide +kernel
  obtain ⟨c, hc, hended⟩ := hrun
  obtain ⟨hcrashed, hcleaned, -⟩ := cleanup_survives_panics _ c ⟨_, hc⟩
  refine ⟨c, ⟨_, hc⟩, hended, hcrashed, ?_⟩
  exact (hcleaned ⟨0, false, [.stopped, .onClose, .gc]⟩ (by rw [hended]; simp)).closeConn

end Runs

end Getty.Transport.HandlePackage
