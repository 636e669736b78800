import Getty.Transport.SessionLifecycle

/-!
# What one step of a session can do

The steps of all threads are gone through once: `Effect` says what a step does to the session,
and `Leaves` which threads it leaves, with the tests that it has made.  The inversion lemmas are
read off from these two: which step brings a thread near a call of the listener, which steps add
a listener or a connection, and which threads have to do with reset requests.

## Main results

* `step_moves` — every step has one of the effects and leaves such threads.
* `step_near` — a task gets near a call only through its tests.
* `step_fades` — a listener or a connection is added only to an open session.
* `step_asks` — only requests and the delivery change the pending requests.
* `step_waits` — a wait for a reset begins only while no callback is active.
* `step_harmless` — which threads leave the connection alone until a reset is requested.
* `step_gens`, `step_once`, `step_cleanup` — what a step does to the generations.
* `step_wiring` — which steps change the listener or the connection.
* `step_opened` — `run` starts the read goroutine only after its checks.
* `step_quiet` — which threads have to do with the heartbeat timer.
-/

namespace Getty.Transport.Session

/-- The thread is a reset request, or waits for the result of one. -/
def Thread.asks : Thread → Bool
  | .reset _ => true
  | .request _ => true
  | .await _ => true
  | _ => false

/-- The thread waits for a reset, or has decided to. -/
def Thread.waits : Thread → Bool
  | .request wait => wait
  | .await _ => true
  | _ => false

/-! ## The effect of a step -/

/-- What a step does to the counters and to `packetLock`. -/
inductive Tally (s : Shared) : Shared → Prop where
  | same : Tally s s
  | enter : Tally s s.enter
  | leave : Tally s s.leave
  | addGr {n : Int} : Tally s (s.addGr n)
  | lockPacket {exclusive : Bool} : Tally s (s.lockPacket exclusive)
  | unlockPacket {exclusive : Bool} : Tally s (s.unlockPacket exclusive)

/-- The updates of generation `g` that a step of the thread can make. -/
inductive Edit (s : Shared) : Thread → Nat → (Gen → Gen) → Prop where
  | begin {g : Nat} {k : Cont} (h : (s.gens g).once = .fresh) :
      Edit s (.stop (.doOnce g) k) g Gen.begin
  | ret {g : Nat} {k : Cont} (h : (s.gens g).once = .finished) :
      Edit s (.stop (.doOnce g) k) g Gen.ret
  | setDone {g : Nat} {k : Cont} : Edit s (.stop (.closeDone g) k) s.gen Gen.setDone
  | close {g l : Nat} {k : Cont} : Edit s (.stop (.closeLifecycle g l) k) l Gen.close
  | startCallbacks {g l : Nat} {k : Cont} :
      Edit s (.stop (.closeCallbacks g l) k) l Gen.startCallbacks
  | reconnect {g : Nat} {k : Cont} : Edit s (.stop (.runReconnect g) k) g Gen.reconnect
  | finish {g : Nat} {k : Cont} : Edit s (.stop (.finish g) k) g Gen.finish
  | startCleanup {k : GcCont} (hattrs : s.attrs.isSome = true) (hconn : s.conn.isSome = true) :
      Edit s (.gc k) s.gen Gen.startCleanup
  | acquire {a : Thread} {l : Nat} (h : (s.gens l).closed = false) : Edit s a l Gen.acquire
  | release {a : Thread} {l : Nat} : Edit s a l Gen.release
  | endCallbacks {l : Nat} : Edit s (.callbacks l .inside) l Gen.endCallbacks
  | endCleanup {l : Nat} : Edit s (.cleanup l .closeConn) l Gen.endCleanup
  | closeAgain {l : Nat} : Edit s (.worker (.closeLifecycle l)) l Gen.close
  | carry {cfg : Config} (h : s.cur.once = .fresh) :
      Edit s (.reuse cfg) s.gen (Gen.carry cfg.attrs)

/-- What a step of the thread does to the session. -/
inductive Effect (s : Shared) : Thread → Shared → Prop where
  | tally {a : Thread} {s' : Shared} (h : Tally s s') : Effect s a s'
  | edit {a : Thread} {g : Nat} {f : Gen → Gen} (h : Edit s a g f) : Effect s a (s.modGen g f)
  | takeTimer {g : Nat} {k : Cont} : Effect s (.stop (.takeTimer g) k) s.takeTimer
  | stopTimer {g l : Nat} {t : Option Nat} {k : Cont} :
      Effect s (.stop (.stopTimer g l t) k) (s.stopTimer t)
  | installTimer : Effect s (.run .install) s.installTimer
  | endCallbacks {l : Nat} : Effect s (.callbacks l .inside) (s.leave.modGen l Gen.endCallbacks)
  | detach {k : GcCont} : Effect s (.gc k) s.detach
  | takeConn {k : GcCont} (h : Edit s (.gc k) s.gen Gen.startCleanup) :
      Effect s (.gc k) (s.modGen s.gen Gen.startCleanup).detach
  | takeTimerAgain : Effect s (.worker .takeTimer) s.takeTimer
  | stopTimerAgain {l : Nat} {t : Option Nat} : Effect s (.worker (.stopTimer l t)) (s.stopTimer t)
  | clear {l : Nat} : Effect s (.worker (.clear l)) s.clear
  | deliver {cleared : Option Nat} :
      Effect s (.worker (.deliver cleared)) (s.deliver cleared.isSome)
  | request {wait : Bool} : Effect s (.request wait) s.request
  | prepare {cfg : Config} (hconn : s.conn = none) (hfresh : s.cur.once = .fresh) :
      Effect s (.reuse cfg) ((s.prepare cfg).modGen s.gen (Gen.carry cfg.attrs))

/-- Which threads a step of the thread leaves.  The tests stand where a thread gets on that has
made one: a task before its call, a heartbeat, and `run`. -/
inductive Leaves (s : Shared) : Thread → Thread → Prop where
  | stop {pc pc' : StopPc} {k : Cont} : Leaves s (.stop pc k) (.stop pc' k)
  | startCallbacks {pc : StopPc} {k : Cont} {l : Nat} :
      Leaves s (.stop pc k) (.callbacks l .enter)
  | afterOpening {pc : StopPc} : Leaves s (.stop pc .opening) (.gc .opening)
  | afterShutdown {pc : StopPc} {err : Bool} {pc' : ReadPc} :
      Leaves s (.stop pc (.shutdown err)) (.read pc')
  | afterCron {pc : StopPc} {l : Nat} : Leaves s (.stop pc (.cron l)) (.cron l .rawClose)
  | afterReset {pc : StopPc} : Leaves s (.stop pc .reset) (.worker .closeConn)
  | gcOpening : Leaves s (.gc .opening) (.run .exit)
  | gcShutdown : Leaves s (.gc .shutdown) (.read .exit)
  | gcReset {l : Nat} : Leaves s (.gc (.reset l)) (.worker (.waitLifecycle l))
  | startCleanup {k : GcCont} : Leaves s (.gc k) (.cleanup s.gen .closeConn)
  | run {pc pc' : RunPc}
      (h : pc' = .onOpen → pc = .check ∧ s.conn.isSome = true ∧ s.listener = true)
      (hon : pc' = .inOpen ∨ pc' = .install ∨ pc' = .start →
        pc = .onOpen ∨ pc = .inOpen ∨ pc = .install) : Leaves s (.run pc) (.run pc')
  | openFailed {pc : RunPc} : Leaves s (.run pc) (.stop .readOnce .opening)
  | startRead {pc : RunPc} : Leaves s (.run pc) (.read .loop)
  | read {pc pc' : ReadPc} : Leaves s (.read pc) (.read pc')
  | shutdown {pc : ReadPc} {err : Bool} : Leaves s (.read pc) (.stop .readOnce (.shutdown err))
  | addTask {pc : ReadPc} {inline : Bool} : Leaves s (.read pc) (.task s.gen inline .acquire)
  | gc {pc : ReadPc} : Leaves s (.read pc) (.gc .shutdown)
  | task {l : Nat} {inline : Bool} {pc pc' : TaskPc}
      (h : pc' = .listener → pc = .closedCheck ∧ s.cur.done = false) :
      Leaves s (.task l inline pc) (.task l inline pc')
  | endTask {l : Nat} {inline : Bool} {pc : TaskPc} : Leaves s (.task l inline pc) (.read .loop)
  | taskPanicked {l : Nat} {inline : Bool} {pc : TaskPc} :
      Leaves s (.task l inline pc) (.stop .readOnce (.shutdown false))
  | cron {l : Nat} {pc pc' : CronPc}
      (hopen : pc' = .snapshot → pc = .acquire ∧ (s.gens l).closed = false)
      (hcall : pc' = .onCron → pc = .snapshot ∧ s.conn.isSome = true ∧ s.listener = true) :
      Leaves s (.cron l pc) (.cron l pc')
  | cronPanicked {l : Nat} {pc : CronPc} : Leaves s (.cron l pc) (.stop .readOnce (.cron l))
  | write {k k' : WriteKind} {pc pc' : WritePc} : Leaves s (.write k pc) (.write k' pc')
  | callbacks {l : Nat} {pc pc' : CallbacksPc} : Leaves s (.callbacks l pc) (.callbacks l pc')
  | cleanup {l : Nat} {pc pc' : CleanupPc} : Leaves s (.cleanup l pc) (.cleanup l pc')
  | ask {k : ResetKind} {wait : Bool} (h : wait = true → s.callbackDepth ≤ 0) :
      Leaves s (.reset k) (.request wait)
  | await {id : Nat} : Leaves s (.request true) (.await id)
  | startReset {wait : Bool} : Leaves s (.request wait) (.stop .readOnce .reset)
  | worker {pc pc' : WorkerPc} (h : ∀ l t, pc' = .stopTimer l t → pc = .takeTimer) :
      Leaves s (.worker pc) (.worker pc')
  | callGc {pc : WorkerPc} {l : Nat} : Leaves s (.worker pc) (.gc (.reset l))

/-- All outcomes have an effect of the thread and leave its threads. -/
def Moves (s : Shared) (a : Thread) (outs : Outcomes) : Prop :=
  ∀ out ∈ outs, Effect s a out.1 ∧ ∀ b ∈ out.2, Leaves s a b

section Moves

variable {s s' s₁ : Shared} {a b : Thread} {bs : List Thread} {outs : Outcomes}

theorem Effect.same : Effect s a s := .tally .same

theorem moves_nil : Moves s a [] := List.forall_mem_nil _

theorem moves_cons (heffect : Effect s a s₁) (hbs : ∀ b ∈ bs, Leaves s a b)
    (hrest : Moves s a outs) : Moves s a ((s₁, bs) :: outs) :=
  List.forall_mem_cons.mpr ⟨⟨heffect, hbs⟩, hrest⟩

/-- An outcome that leaves one thread. -/
theorem moves_on (heffect : Effect s a s₁) (hb : Leaves s a b) (hrest : Moves s a outs) :
    Moves s a ((s₁, [b]) :: outs) :=
  moves_cons heffect (List.forall_mem_singleton.mpr hb) hrest

theorem moves_one (heffect : Effect s a s₁) (hb : Leaves s a b) : Moves s a [(s₁, [b])] :=
  moves_on heffect hb moves_nil

theorem moves_end (heffect : Effect s a s₁) : Moves s a [(s₁, [])] :=
  moves_cons heffect (List.forall_mem_nil _) moves_nil

private theorem leaves_afterStop (s : Shared) (pc : StopPc) (k : Cont) :
    ∀ b ∈ afterStop k, Leaves s (.stop pc k) b := by
  cases k with
  | close => exact List.forall_mem_nil _
  | opening => exact List.forall_mem_singleton.mpr .afterOpening
  | shutdown err =>
      cases err with
      | true => exact List.forall_mem_singleton.mpr .afterShutdown
      | false => exact List.forall_mem_singleton.mpr .afterShutdown
  | cron l => exact List.forall_mem_singleton.mpr .afterCron
  | reset => exact List.forall_mem_singleton.mpr .afterReset

private theorem moves_stop (s : Shared) (k : Cont) (pc : StopPc) :
    Moves s (.stop pc k) (stopStep s k pc) := by
  cases pc with
  | readOnce | attrClient g => exact moves_one .same .stop
  | doOnce g =>
      simp only [stopStep]
      split
      · next honce => exact moves_one (.edit (.begin honce)) .stop
      · exact moves_nil
      · next honce => exact moves_cons (.edit (.ret honce)) (leaves_afterStop s _ k) moves_nil
  | closeDone g => exact moves_one (.edit .setDone) .stop
  | takeTimer g => exact moves_one .takeTimer .stop
  | stopTimer g l t => exact moves_one .stopTimer .stop
  | closeLifecycle g l => exact moves_one (.edit .close) .stop
  | closeCallbacks g l =>
      refine moves_cons (.edit .startCallbacks) ?_ moves_nil
      exact List.forall_mem_cons.mpr ⟨.stop, List.forall_mem_singleton.mpr .startCallbacks⟩
  | attrIgnore g found =>
      simp only [stopStep]
      split
      · exact moves_one .same .stop
      · exact moves_one .same .stop
  | runReconnect g => exact moves_one (.edit .reconnect) .stop
  | finish g => exact moves_cons (.edit .finish) (leaves_afterStop s _ k) moves_nil

private theorem moves_gc (s : Shared) (k : GcCont) : Moves s (.gc k) (gcStep s k) := by
  have hafter : Leaves s (.gc k) (afterGc k) := by
    cases k with
    | opening => exact .gcOpening
    | shutdown => exact .gcShutdown
    | reset l => exact .gcReset
  unfold gcStep
  split
  · next hattrs hconn =>
      refine moves_cons (.takeConn (.startCleanup (by rw [hattrs]; rfl) (by rw [hconn]; rfl))) ?_
        moves_nil
      exact List.forall_mem_cons.mpr ⟨hafter, List.forall_mem_singleton.mpr .startCleanup⟩
  · exact moves_one .detach hafter
  · exact moves_one .same hafter

private theorem moves_run (s : Shared) (pc : RunPc) : Moves s (.run pc) (runStep s pc) := by
  have hexit : ∀ {pc : RunPc}, Leaves s (.run pc) (.run .exit) := .run (by simp) (by simp)
  have hstart : Leaves s (.run .install) (.run .start) := .run (by simp) (by simp)
  cases pc with
  | register =>
      simp only [runStep]
      split
      · exact moves_end .same
      · exact moves_one (.tally .addGr) (.run (by simp) (by simp))
  | check =>
      simp only [runStep]
      split
      · next h => exact moves_one .same (.run (fun _ => ⟨rfl, h.1, h.2.1⟩) (by simp))
      · exact moves_one .same hexit
  | onOpen => exact moves_one (.tally .enter) (.run (by simp) (by simp))
  | inOpen =>
      exact moves_on (.tally .leave) (.run (by simp) (by simp))
        (moves_one (.tally .leave) .openFailed)
  | install =>
      simp only [runStep]
      split
      · exact moves_one .same hstart
      · exact moves_on .installTimer hstart (moves_one .same hexit)
  | start =>
      refine moves_cons (.tally .addGr) ?_ moves_nil
      exact List.forall_mem_cons.mpr ⟨hexit, List.forall_mem_singleton.mpr .startRead⟩
  | exit => exact moves_end (.tally .addGr)

private theorem moves_read (s : Shared) (pc : ReadPc) : Moves s (.read pc) (readStep s pc) := by
  cases pc with
  | loop => exact moves_on .same .read (moves_on .same .shutdown (moves_one .same .shutdown))
  | decode => exact moves_one (.tally .enter) .read
  | decoding =>
      exact moves_on (.tally .leave) .read
        (moves_on (.tally .leave) .read (moves_one (.tally .leave) .shutdown))
  | addTask =>
      simp only [readStep]
      split
      · refine moves_cons .same ?_ moves_nil
        exact List.forall_mem_cons.mpr ⟨.read, List.forall_mem_singleton.mpr .addTask⟩
      · exact moves_one .same .addTask
  | onError =>
      simp only [readStep]
      split
      · exact moves_one (.tally .enter) .read
      · exact moves_one .same .read
  | inError => exact moves_one (.tally .leave) .read
  | onClose =>
      simp only [readStep]
      split
      · exact moves_one (.tally .enter) .read
      · exact moves_one .same .gc
  | inClose => exact moves_one (.tally .leave) .gc
  | exit => exact moves_end (.tally .addGr)

private theorem moves_task (s : Shared) (l : Nat) (inline : Bool) (pc : TaskPc) :
    Moves s (.task l inline pc) (taskStep s l inline pc) := by
  have hafter : ∀ panicked, ∀ b ∈ afterTask inline panicked, Leaves s (.task l inline pc) b := by
    intro panicked
    cases inline with
    | false => exact List.forall_mem_nil _
    | true =>
        cases panicked with
        | true => exact List.forall_mem_singleton.mpr .taskPanicked
        | false => exact List.forall_mem_singleton.mpr .endTask
  cases pc with
  | acquire =>
      simp only [taskStep]
      split
      · exact moves_cons .same (hafter _) moves_nil
      · next h => exact moves_one (.edit (.acquire (by simpa using h))) (.task (by simp))
  | closedCheck =>
      simp only [taskStep]
      split
      · exact moves_one .same (.task (by simp))
      · next h => exact moves_one .same (.task fun _ => ⟨rfl, by simpa using h⟩)
  | listener =>
      simp only [taskStep]
      split
      · exact moves_one (.tally .enter) (.task (by simp))
      · exact moves_one .same (.task (by simp))
  | inMessage =>
      exact moves_on (.tally .leave) (.task (by simp)) (moves_one (.tally .leave) (.task (by simp)))
  | release panicked => exact moves_cons (.edit .release) (hafter _) moves_nil

private theorem moves_cron (s : Shared) (l : Nat) (pc : CronPc) :
    Moves s (.cron l pc) (cronStep s l pc) := by
  cases pc with
  | fire =>
      simp only [cronStep]
      split
      · exact moves_one .same (.cron (by simp) (by simp))
      · exact moves_end .same
  | acquire =>
      simp only [cronStep]
      split
      · exact moves_end .same
      · next h =>
          have hopen : (s.gens l).closed = false := by simpa using h
          exact moves_one (.edit (.acquire hopen)) (.cron (fun _ => ⟨rfl, hopen⟩) (by simp))
  | snapshot =>
      simp only [cronStep]
      split
      · next h => exact moves_one .same (.cron (by simp) fun _ => ⟨rfl, h⟩)
      · exact moves_one .same (.cron (by simp) (by simp))
  | onCron => exact moves_one (.tally .enter) (.cron (by simp) (by simp))
  | inCron =>
      exact moves_on (.tally .leave) (.cron (by simp) (by simp))
        (moves_one (.tally .leave) .cronPanicked)
  | rawClose => exact moves_one .same (.cron (by simp) (by simp))
  | release => exact moves_end (.edit .release)

private theorem moves_write (s : Shared) (k : WriteKind) (pc : WritePc) :
    Moves s (.write k pc) (writeStep s k pc) := by
  cases pc with
  | closedCheck =>
      simp only [writeStep]
      split
      · exact moves_end .same
      · exact moves_one .same .write
  | snapshot | send l c g => exact moves_one .same .write
  | acquire l =>
      simp only [writeStep]
      split
      · exact moves_end .same
      · next h => exact moves_one (.edit (.acquire (by simpa using h))) .write
  | encode l => exact moves_one (.tally .enter) .write
  | encoding l => exact moves_on (.tally .leave) .write (moves_one (.tally .leave) .write)
  | connFirst =>
      simp only [writeStep]
      split
      · exact moves_end .same
      · exact moves_on .same .write (moves_on .same .write (moves_one .same .write))
  | lock l c =>
      simp only [writeStep]
      split
      · split
        · exact moves_one (.tally .lockPacket) .write
        · exact moves_one (.tally .lockPacket) .write
      · exact moves_nil
  | conn l g =>
      simp only [writeStep]
      split
      · exact moves_one .same .write
      · exact moves_one .same .write
  | unlock l g =>
      cases l with
      | none => exact moves_end (.tally .unlockPacket)
      | some l => exact moves_one (.tally .unlockPacket) .write
  | release l => exact moves_end (.edit .release)

private theorem moves_reset (s : Shared) (k : ResetKind) : Moves s (.reset k) (resetStep s k) := by
  cases k with
  | reset => exact moves_one .same (.ask (by simp))
  | tryReset =>
      simp only [resetStep]
      split
      · exact moves_end .same
      · next h => exact moves_one .same (.ask fun _ => Int.not_lt.mp h)
  | resetAsync => exact moves_one .same (.ask (by simp))

private theorem moves_request (s : Shared) (wait : Bool) :
    Moves s (.request wait) (requestStep s wait) := by
  have hwaiter : ∀ b ∈ (if wait then [Thread.await s.nextRequest] else []),
      Leaves s (.request wait) b := by
    cases wait with
    | true => exact List.forall_mem_singleton.mpr .await
    | false => exact List.forall_mem_nil _
  simp only [requestStep]
  split
  · exact moves_cons .request hwaiter moves_nil
  · exact moves_cons .request (List.forall_mem_cons.mpr ⟨.startReset, hwaiter⟩) moves_nil

theorem moves_worker (s : Shared) (pc : WorkerPc) : Moves s (.worker pc) (workerStep s pc) := by
  cases pc with
  | closeConn =>
      simp only [workerStep]
      split
      · exact moves_on .same (.worker (by simp)) (moves_one .same (.worker (by simp)))
      · exact moves_one .same (.worker (by simp))
  | takeTimer => exact moves_one .takeTimerAgain (.worker fun _ _ _ => rfl)
  | stopTimer l t => exact moves_one .stopTimerAgain (.worker (by simp))
  | closeLifecycle l => exact moves_one (.edit .closeAgain) (.worker (by simp))
  | waitGr l =>
      simp only [workerStep]
      split
      · exact moves_one .same .callGc
      · exact moves_nil
  | waitLifecycle l =>
      simp only [workerStep]
      split
      · exact moves_one .same (.worker (by simp))
      · exact moves_nil
  | lock l =>
      simp only [workerStep]
      split
      · exact moves_one (.tally .lockPacket) (.worker (by simp))
      · exact moves_nil
  | clear l => exact moves_one .clear (.worker (by simp))
  | unlock l => exact moves_one (.tally .unlockPacket) (.worker (by simp))
  | deliver cleared => exact moves_end .deliver

/-- **Inversion.** -/
theorem step_moves (s : Shared) (a : Thread) : Moves s a (step s a) := by
  cases a with
  | stop pc k => exact moves_stop s k pc
  | gc k => exact moves_gc s k
  | run pc => exact moves_run s pc
  | read pc => exact moves_read s pc
  | task l inline pc => exact moves_task s l inline pc
  | cron l pc => exact moves_cron s l pc
  | write k pc => exact moves_write s k pc
  | callbacks l pc =>
      cases pc with
      | enter => exact moves_one (.tally .enter) .callbacks
      | inside => exact moves_one .endCallbacks .callbacks
      | release => exact moves_end (.edit .release)
  | cleanup l pc =>
      cases pc with
      | closeConn => exact moves_one (.edit .endCleanup) .cleanup
      | release => exact moves_end (.edit .release)
  | reset k => exact moves_reset s k
  | request wait => exact moves_request s wait
  | await id =>
      simp only [step]
      split
      · exact moves_end .same
      · exact moves_nil
  | worker pc => exact moves_worker s pc
  | reuse cfg =>
      simp only [step]
      split
      · next h => exact moves_end (.prepare h.2.1 h.2.2)
      · exact moves_nil

theorem step_effect (h : (s', bs) ∈ step s a) : Effect s a s' := (step_moves s a _ h).1

theorem step_leaves (h : (s', bs) ∈ step s a) (hb : b ∈ bs) : Leaves s a b :=
  (step_moves s a _ h).2 b hb

end Moves

/-! ## Calls of the listener -/

/-- The generation whose listener the thread calls next, or after one more look at
the session. -/
def Thread.near : Thread → Option Nat
  | .task l _ .listener => some l
  | .cron l .snapshot => some l
  | .cron l .onCron => some l
  | _ => none

section Steps

variable {s s' : Shared} {a b : Thread} {bs : List Thread}

/-- Only a test that succeeds brings a thread near a call. -/
theorem step_near (h : (s', bs) ∈ step s a) (hb : b ∈ bs) {g : Nat} (hg : b.near = some g) :
    (∃ inline, a = .task g inline .closedCheck ∧ s.cur.done = false) ∨
      (a = .cron g .acquire ∧ (s.gens g).closed = false) ∨
      (a = .cron g .snapshot ∧ s.conn.isSome = true ∧ s.listener = true) := by
  cases step_leaves h hb with
  | @task l inline pc pc' htest =>
      cases pc' with
      | listener =>
          cases hg
          obtain ⟨rfl, hopen⟩ := htest rfl
          exact Or.inl ⟨inline, rfl, hopen⟩
      | _ => cases hg
  | @cron l pc pc' hopen hcall =>
      cases pc' with
      | snapshot =>
          cases hg
          obtain ⟨rfl, htest⟩ := hopen rfl
          exact Or.inr (Or.inl ⟨rfl, htest⟩)
      | onCron =>
          cases hg
          obtain ⟨rfl, htest⟩ := hcall rfl
          exact Or.inr (Or.inr ⟨rfl, htest⟩)
      | _ => cases hg
  | _ => cases hg

/-! ## The listener, the connection and the requests -/

/-- The fields that the counters have nothing to do with. -/
structure Kept (s s' : Shared) : Prop where
  gens : s'.gens = s.gens
  listener : s'.listener = s.listener
  conn : s'.conn = s.conn
  gen : s'.gen = s.gen
  timer : s'.timer = s.timer
  wheel : s'.wheel = s.wheel
  resetRun : s'.resetRun = s.resetRun
  nextRequest : s'.nextRequest = s.nextRequest

theorem Tally.kept (h : Tally s s') : Kept s s' := by
  cases h with
  | @lockPacket exclusive => cases exclusive <;> exact ⟨rfl, rfl, rfl, rfl, rfl, rfl, rfl, rfl⟩
  | @unlockPacket exclusive => cases exclusive <;> exact ⟨rfl, rfl, rfl, rfl, rfl, rfl, rfl, rfl⟩
  | _ => exact ⟨rfl, rfl, rfl, rfl, rfl, rfl, rfl, rfl⟩

/-- A step adds neither a listener nor a connection, unless it prepares a session
that was not closed. -/
theorem step_fades (h : (s', bs) ∈ step s a) :
    ((s'.listener = true → s.listener = true) ∧
      (s'.conn.isSome = true → s.conn.isSome = true)) ∨ s.cur.once = .fresh := by
  cases step_effect h with
  | tally ht => exact Or.inl ⟨fun hl => ht.kept.listener ▸ hl, fun hc => ht.kept.conn ▸ hc⟩
  | @stopTimer _ _ t | @stopTimerAgain _ t => cases t <;> exact Or.inl ⟨id, id⟩
  | detach | takeConn => exact Or.inl ⟨id, fun hc => by cases hc⟩
  | clear => exact Or.inl ⟨(fun hl => by cases hl), fun hc => by cases hc⟩
  | prepare _ hfresh => exact Or.inr hfresh
  | _ => exact Or.inl ⟨id, id⟩

/-- A thread that is not a request starts none, and leaves the requests alone but
for the delivery. -/
theorem step_asks (ha : a.asks = false) (h : (s', bs) ∈ step s a) :
    (∀ b ∈ bs, b.asks = false) ∧
      ((s'.resetRun = s.resetRun ∧ s'.nextRequest = s.nextRequest) ∨
        ∃ cleared, a = .worker (.deliver cleared)) := by
  constructor
  · intro b hb
    cases step_leaves h hb with
    | ask | await => cases ha
    | _ => rfl
  · cases step_effect h with
    | tally ht => exact Or.inl ⟨ht.kept.resetRun, ht.kept.nextRequest⟩
    | @stopTimer _ _ t | @stopTimerAgain _ t => cases t <;> exact Or.inl ⟨rfl, rfl⟩
    | deliver => exact Or.inr ⟨_, rfl⟩
    | request => cases ha
    | _ => exact Or.inl ⟨rfl, rfl⟩

/-- The number of requests only grows. -/
theorem step_nextRequest (h : (s', bs) ∈ step s a) : s.nextRequest ≤ s'.nextRequest := by
  cases step_effect h with
  | tally ht => exact Nat.le_of_eq ht.kept.nextRequest.symm
  | @stopTimer _ _ t | @stopTimerAgain _ t => cases t <;> exact Nat.le_refl _
  | request => exact Nat.le_succ _
  | _ => exact Nat.le_refl _

/-- A wait begins only where `callbackDepth` reads zero. -/
theorem step_waits (h : (s', bs) ∈ step s a) (hb : b ∈ bs) (hw : b.waits = true) :
    s.callbackDepth ≤ 0 ∨ a.waits = true := by
  cases step_leaves h hb with
  | ask hdepth => exact Or.inl (hdepth hw)
  | await => exact Or.inr rfl
  | _ => cases hw

/-! ## The generations -/

/-- The generations after a step of the thread: at most one of them is updated. -/
def Edited (s : Shared) (a : Thread) (s' : Shared) : Prop :=
  s'.gens = s.gens ∨
    ∃ g f, Edit s a g f ∧ s'.gens = Function.update s.gens g (f (s.gens g))

/-- **What a step does to the generations.** -/
theorem step_gens (h : (s', bs) ∈ step s a) : Edited s a s' := by
  cases step_effect h with
  | tally ht => exact Or.inl ht.kept.gens
  | edit hedit => exact Or.inr ⟨_, _, hedit, rfl⟩
  | @stopTimer _ _ t | @stopTimerAgain _ t => cases t <;> exact Or.inl rfl
  | endCallbacks => exact Or.inr ⟨_, _, .endCallbacks, rfl⟩
  | takeConn hedit => exact Or.inr ⟨_, _, hedit, rfl⟩
  | prepare _ hfresh => exact Or.inr ⟨_, _, .carry hfresh, rfl⟩
  | _ => exact Or.inl rfl

/-- One generation after a step: it is as it was, or has been updated. -/
theorem step_gen (h : (s', bs) ∈ step s a) (g : Nat) :
    s'.gens g = s.gens g ∨ ∃ f, Edit s a g f ∧ s'.gens g = f (s.gens g) := by
  rcases step_gens h with hsame | ⟨j, f, hedit, hgens⟩
  · exact Or.inl (congrFun hsame g)
  · rw [hgens]
    by_cases hj : g = j
    · subst hj
      exact Or.inr ⟨f, hedit, Function.update_self ..⟩
    · exact Or.inl (Function.update_of_ne hj ..)

/-- The `once` of a generation changes only where the body of `stop` begins and ends. -/
theorem step_once (h : (s', bs) ∈ step s a) (g : Nat) :
    (s'.gens g).once = (s.gens g).once ∨
      (∃ k, a = .stop (.doOnce g) k ∧ (s.gens g).once = .fresh ∧ (s'.gens g).once = .running) ∨
      (∃ k, a = .stop (.finish g) k ∧ (s'.gens g).once = .finished) := by
  rcases step_gen h g with hsame | ⟨f, hedit, hgen⟩
  · rw [hsame]
    exact Or.inl rfl
  · rw [hgen]
    cases hedit with
    | @begin _ k honce => exact Or.inr (Or.inl ⟨k, rfl, honce, rfl⟩)
    | @finish _ k => exact Or.inr (Or.inr ⟨k, rfl, rfl⟩)
    | _ => exact Or.inl rfl

/-- The cleanup of the connection changes only where it begins and ends. -/
theorem step_cleanup (h : (s', bs) ∈ step s a) (g : Nat) :
    ((s'.gens g).cleanup = (s.gens g).cleanup ∧ a ≠ .cleanup g .closeConn) ∨
      (∃ k, a = .gc k ∧ g = s.gen ∧ s.attrs.isSome = true ∧ (s'.gens g).cleanup = .running) ∨
      (a = .cleanup g .closeConn ∧ (s'.gens g).cleanup = .finished) := by
  by_cases ha : a = .cleanup g .closeConn
  · subst ha
    cases List.mem_singleton.mp h
    refine Or.inr (Or.inr ⟨rfl, ?_⟩)
    simp [Shared.modGen, Gen.endCleanup]
  · rcases step_gen h g with hsame | ⟨f, hedit, hgen⟩
    · rw [hsame]
      exact Or.inl ⟨rfl, ha⟩
    · rw [hgen]
      cases hedit with
      | @startCleanup k hattrs hconn => exact Or.inr (Or.inl ⟨k, rfl, rfl, hattrs, rfl⟩)
      | endCleanup => exact absurd rfl ha
      | _ => exact Or.inl ⟨rfl, ha⟩

/-- A generation that got a connection keeps that mark. -/
theorem step_installed (h : (s', bs) ∈ step s a) {g : Nat} (hg : (s.gens g).installed = true) :
    (s'.gens g).installed = true := by
  rcases step_gen h g with hsame | ⟨f, hedit, hgen⟩
  · rw [hsame]
    exact hg
  · rw [hgen]
    cases hedit with
    | carry _ => rfl
    | _ => exact hg

/-! ## What `run` has found -/

/-- A step on the listener, the connection and the generation: none, the detachment by `gc`, a
reset, or the preparation of a session that was not closed. -/
def Wiring (s : Shared) (a : Thread) (s' : Shared) : Prop :=
  (s'.listener = s.listener ∧ s'.conn = s.conn ∧ s'.gen = s.gen) ∨
    ((∃ k, a = .gc k) ∧ s'.listener = s.listener ∧ s'.conn = none ∧ s'.gen = s.gen) ∨
    ((∃ l, a = .worker (.clear l)) ∧ s'.conn = none ∧ s'.gen = s.gen + 1) ∨
    (s.conn = none ∧ s.cur.once = .fresh ∧ s'.conn = some s.gen ∧ s'.gen = s.gen ∧
      s'.cur.installed = true)

/-- **What a step does to the listener and the connection.** -/
theorem step_wiring (h : (s', bs) ∈ step s a) : Wiring s a s' := by
  cases step_effect h with
  | tally ht => exact Or.inl ⟨ht.kept.listener, ht.kept.conn, ht.kept.gen⟩
  | @stopTimer _ _ t | @stopTimerAgain _ t => cases t <;> exact Or.inl ⟨rfl, rfl, rfl⟩
  | detach | takeConn => exact Or.inr (Or.inl ⟨⟨_, rfl⟩, rfl, rfl, rfl⟩)
  | clear => exact Or.inr (Or.inr (Or.inl ⟨⟨_, rfl⟩, rfl, rfl⟩))
  | prepare hconn hfresh =>
      refine Or.inr (Or.inr (Or.inr ⟨hconn, hfresh, rfl, rfl, ?_⟩))
      simp [Shared.cur, Shared.modGen, Shared.prepare, Gen.carry]
  | _ => exact Or.inl ⟨rfl, rfl, rfl⟩

/-- `run` has made its checks, and has yet to start the read goroutine. -/
def Thread.opened : Thread → Bool
  | .run .onOpen => true
  | .run .inOpen => true
  | .run .install => true
  | .run .start => true
  | _ => false

/-- Only the checks bring `run` there. -/
theorem step_opened (h : (s', bs) ∈ step s a) (hb : b ∈ bs) (hopened : b.opened = true) :
    a.opened = true ∨ (a = .run .check ∧ s' = s ∧ s.conn.isSome = true ∧ s.listener = true) := by
  cases step_leaves h hb with
  | @run pc pc' htest hon =>
      have hafter : pc = .onOpen ∨ pc = .inOpen ∨ pc = .install →
          (Thread.run pc).opened = true := by
        rintro (rfl | rfl | rfl) <;> rfl
      cases pc' with
      | onOpen =>
          obtain ⟨rfl, hfound⟩ := htest rfl
          have hsame : s' = s := by
            simp only [step, runStep] at h
            split at h <;> cases List.mem_singleton.mp h <;> rfl
          exact Or.inr ⟨rfl, hsame, hfound⟩
      | inOpen | install | start => exact Or.inl (hafter (hon (by simp)))
      | _ => cases hopened
  | _ => cases hopened

/-! ## Before the first reset request -/

/-- The thread leads to no `gc` and to no reset, but by a request. -/
def Thread.harmless : Thread → Bool
  | .stop _ .close => true
  | .stop _ (.cron _) => true
  | .cron _ _ => true
  | .write _ _ => true
  | .callbacks _ _ => true
  | .cleanup _ _ => true
  | .reset _ => true
  | .request _ => true
  | .await _ => true
  | _ => false

/-- A harmless thread starts only harmless ones, but for a request. -/
theorem step_harmless (ha : a.harmless = true) (h : (s', bs) ∈ step s a) :
    (∀ b ∈ bs, b.harmless = true) ∨ 0 < s'.nextRequest := by
  by_cases hrequest : ∃ wait, a = .request wait
  · obtain ⟨wait, rfl⟩ := hrequest
    refine Or.inr ?_
    simp only [step, requestStep] at h
    split at h <;> (cases List.mem_singleton.mp h; exact Nat.succ_pos _)
  · refine Or.inl fun b hb => ?_
    cases step_leaves h hb with
    | @stop _ _ k =>
        cases k with
        | close | cron => rfl
        | _ => cases ha
    | startCallbacks | afterCron | cron | cronPanicked | write | callbacks | cleanup | ask => rfl
    | await => exact absurd ⟨_, rfl⟩ hrequest
    | startReset => exact absurd ⟨_, rfl⟩ hrequest
    | _ => cases ha

/-! ## The heartbeat timer -/

/-- `run` is on its way to the installation of the heartbeat timer. -/
def Thread.starting : Thread → Bool
  | .run .check => true
  | .run .onOpen => true
  | .run .inOpen => true
  | .run .install => true
  | _ => false

/-- The thread has to do with the heartbeat timer: `run` before it installs it, the body of
`stop`, and a reset worker that has taken it. -/
def Thread.minds : Thread → Bool
  | .stop .readOnce _ => false
  | .stop (.doOnce _) _ => false
  | .stop _ _ => true
  | .worker (.stopTimer _ _) => true
  | th => th.starting

/-- The step leaves the timer and the generation alone, and starts nothing that has to do
with the timer. -/
def Quiet (s s' : Shared) (bs : List Thread) : Prop :=
  s'.timer = s.timer ∧ s'.wheel = s.wheel ∧ s'.gen = s.gen ∧ ∀ b ∈ bs, b.minds = false

theorem minds_afterStop (k : Cont) : ∀ b ∈ afterStop k, b.minds = false := by
  cases k with
  | shutdown err => cases err <;> simp [afterStop, Thread.minds, Thread.starting]
  | _ => simp [afterStop, Thread.minds, Thread.starting]

/-- **Who has to do with the heartbeat timer.**  Only `run`, `stop`, and the reset worker where it
takes the timer, stops it, and clears the session. -/
theorem step_quiet (hstop : ∀ pc k, a ≠ .stop pc k) (hrun : ∀ pc, a ≠ .run pc)
    (htake : a ≠ .worker .takeTimer) (htimer : ∀ l t, a ≠ .worker (.stopTimer l t))
    (hclear : ∀ l, a ≠ .worker (.clear l)) (h : (s', bs) ∈ step s a) : Quiet s s' bs := by
  have hstate : s'.timer = s.timer ∧ s'.wheel = s.wheel ∧ s'.gen = s.gen := by
    cases step_effect h with
    | tally ht => exact ⟨ht.kept.timer, ht.kept.wheel, ht.kept.gen⟩
    | takeTimer | stopTimer => exact absurd rfl (hstop _ _)
    | installTimer => exact absurd rfl (hrun _)
    | takeTimerAgain => exact absurd rfl htake
    | stopTimerAgain => exact absurd rfl (htimer _ _)
    | clear => exact absurd rfl (hclear _)
    | _ => exact ⟨rfl, rfl, rfl⟩
  refine ⟨hstate.1, hstate.2.1, hstate.2.2, fun b hb => ?_⟩
  cases step_leaves h hb with
  | stop => exact absurd rfl (hstop _ _)
  | run => exact absurd rfl (hrun _)
  | @worker pc pc' htaken =>
      cases pc' with
      | stopTimer l t => exact absurd (congrArg Thread.worker (htaken l t rfl)) htake
      | _ => rfl
  | _ => rfl

end Steps

end Getty.Transport.Session
