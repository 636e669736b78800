import Getty.Transport.Server

/-!
# What holds once `Close` has returned

`startEventLoop` tests `done` and increments the wait group under `s.lock`, and
`publishStreamListener` tests `done` under the same lock.  The body of the `once` closes
`done` and only then takes the lock: from there on the tests fail, and what has passed
them before is complete.  So a `Close` call that has run this body, or waited for it, has
closed every listener, and after its wait no event loop is left or will be started.

A `Close` call that finds `done` closed does not wait for the body.  It may return while
`RunEventLoop` is between the test and the increment, and while the listener is still open.
Nor does any `Close` call wait for a request handler whose connection was hijacked.

## Main results

* `outline_valid` — the invariant survives every step.
* `close_waits_for_event_loop` — no event loop and no open listener after a `Close` that
  did not pass by the running body.
* `closed_server_starts_no_session_iff` — no session is started after a `Close` if and
  only if no request handler has passed its closed test.
-/

namespace Getty.Transport.Server

open Getty.Verified.ThreadPool

/-! ## The outline -/

/-- The thread is, or is about to become, an event loop. -/
def Thread.looping : Thread → Bool
  | .loop _ => true
  | .runEventLoop .launch => true
  | _ => false

/-- The thread executes the body of the `once`. -/
def Thread.inBody : Thread → Bool
  | .close .select => false
  | .close .doOnce => false
  | .close (.wait _) => false
  | .close _ => true
  | _ => false

/-- The thread holds `s.lock`. -/
def Thread.holdsLock : Thread → Bool
  | .close .shutdown => true
  | .close .drain => true
  | .close .snapshot => true
  | .runEventLoop .store => true
  | .runEventLoop .add => true
  | _ => false

/-- The thread is an event loop on the way to a session of its own. -/
def Thread.accepts : Thread → Bool
  | .loop (.backoff _) => true
  | .loop (.accept _) => true
  | .loop (.newSession _) => true
  | .loop (.inNewSession _) => true
  | .loop .run => true
  | _ => false

/-- The thread serves a request that is not hijacked. -/
def Thread.serves : Thread → Bool
  | .conn .method => true
  | .conn .isClosed => true
  | .conn .upgrade => true
  | _ => false

/-- The thread is a request handler that has passed its `IsClosed` test and has not yet
called `run`. -/
def Thread.pending : Thread → Bool
  | .conn .upgrade => true
  | .conn .sameAddr => true
  | .conn .newSession => true
  | .conn .inNewSession => true
  | .conn .run => true
  | _ => false

/-- The invariant of the server. -/
structure Inv (s : Shared) : Prop where
  fresh : s.once = .fresh → s.done = false
  entered : s.entered = true → s.done = true
  finished : s.once = .finished → s.entered = true ∧ s.listenersClosed = true
  returned : 0 < s.returned → s.done = true
  hasty : s.hasty ≤ s.returned
  settled : s.hasty < s.returned → s.once = .finished ∧ s.wg = 0

/-- No `Close` call has returned, unless it is a UDP endpoint, whose event loop does not
test `done`. -/
def Shared.accepting (s : Shared) : Prop := s.returned = 0 ∨ s.endPointType = .udpEndpoint

/-- What a thread knows. -/
def Local (s : Shared) : Thread → Prop
  | .close .lock => s.done = true
  | .close .shutdown => s.entered = true
  | .close .drain => s.entered = true
  | .close .snapshot => s.entered = true
  | .close (.closeStream stream pkt) => s.entered = true ∧ stream = s.streamListener.isSome ∧
      pkt = s.pktListener.isSome
  | .close (.closePkt pkt) => s.entered = true ∧ s.streamListener.all Listener.closed = true ∧
      pkt = s.pktListener.isSome
  | .close .finish => s.entered = true ∧ s.listenersClosed = true
  | .close (.wait hasty) => s.done = true ∧ (hasty = false → s.once = .finished)
  | .runEventLoop .store => s.entered = false
  | .runEventLoop .add => s.entered = false
  | .conn _ => s.endPointType.isWS = true
  | .loop .setServer => s.endPointType.isWS = true
  | .loop .startServe => s.endPointType.isWS = true
  | .loop .serve => s.endPointType.isWS = true
  | .loop (.backoff _) => s.accepting
  | .loop (.accept _) => s.accepting
  | .loop (.newSession _) => s.accepting
  | .loop (.inNewSession _) => s.accepting
  | .loop .run => s.accepting
  | _ => True

inductive Ledger where
  | wg
  | body
  | lock
  | tracked

def outline : Outline Shared Thread Ledger where
  shared := Inv
  loc := Local
  val
    | .wg, s => s.wg
    | .body, s => (decide (s.once = .running)).toNat
    | .lock, s => s.locked.toNat
    | .tracked, s => s.tracked
  wt
    | .wg, th => th.looping.toNat
    | .body, th => th.inBody.toNat
    | .lock, th => th.holdsLock.toNat
    | .tracked, th => th.serves.toNat

/-- The ledgers bound a thread's own weights. -/
abbrev Booked (s : Shared) (th : Thread) : Prop := outline.Booked s th

/-- Everything the ledgers look at. -/
def Shared.book (s : Shared) : Int × Bool × Bool × Nat :=
  (s.wg, decide (s.once = .running), s.locked, s.tracked)

def Thread.dues (th : Thread) : Bool × Bool × Bool × Bool :=
  (th.looping, th.inBody, th.holdsLock, th.serves)

variable {s s' : Shared} {a b : Thread} {bs : List Thread}

theorem val_of_book (h : s'.book = s.book) (i : Ledger) : outline.val i s' = outline.val i s := by
  simp only [Shared.book, Prod.mk.injEq] at h
  obtain ⟨hwg, honce, hlock, htracked⟩ := h
  cases i with
  | wg => exact hwg
  | body => exact congrArg (fun x : Bool => (x.toNat : Int)) honce
  | lock => exact congrArg (fun x : Bool => (x.toNat : Int)) hlock
  | tracked => exact congrArg (fun x : Nat => (x : Int)) htracked

theorem wt_of_dues (h : b.dues = a.dues) (i : Ledger) : outline.wt i b = outline.wt i a := by
  simp only [Thread.dues, Prod.mk.injEq] at h
  obtain ⟨hloop, hbody, hlock, hserves⟩ := h
  cases i with
  | wg => exact congrArg Bool.toNat hloop
  | body => exact congrArg Bool.toNat hbody
  | lock => exact congrArg Bool.toNat hlock
  | tracked => exact congrArg Bool.toNat hserves

/-! ## What a step does -/

/-- What a step of the thread does to the server. -/
inductive Effect (s : Shared) : Thread → Shared → Prop where
  | same {a : Thread} : Effect s a s
  | begin (h : s.once = .fresh) : Effect s (.close .doOnce) { s with once := .running }
  | closeDone : Effect s (.close .closeDone) { s with done := true }
  | enter (hfree : s.locked = false) :
      Effect s (.close .lock) { s with locked := true, entered := true }
  | shutdown : Effect s (.close .shutdown) s.beginShutdown
  | expire : Effect s (.close .drain) { s with expired := true }
  | leave : Effect s (.close .snapshot) { s with server := false, locked := false }
  | closeStream {a : Thread} : Effect s a s.closeStream
  | closePkt {a : Thread} : Effect s a s.closePkt
  | finish : Effect s (.close .finish) { s with once := .finished }
  | ret {hasty : Bool} (hwg : s.wg = 0) : Effect s (.close (.wait hasty)) (s.ret hasty)
  | lock {a : Thread} : Effect s a { s with locked := true }
  | store : Effect s (.runEventLoop .store) { s.publish with locked := false }
  | add : Effect s (.runEventLoop .add) { s with wg := s.wg + 1, locked := false }
  | invoke {a : Thread} (h : a.accepts = true ∨ a.pending = true) : Effect s a s.invoke
  | start {a : Thread} (h : a.accepts = true ∨ a.pending = true) : Effect s a s.startSession
  | setServer : Effect s (.loop .setServer) { s with server := true }
  | startServe : Effect s (.loop .startServe) { s with serving := !s.shutdown }
  | endServe : Effect s (.loop .serve) { s.closeStream with serving := false }
  | exit : Effect s (.loop .exit) { s with wg := s.wg - 1 }
  | track {a : Thread} : Effect s a s.track
  | untrack {a : Thread} : Effect s a s.untrack

/-- All outcomes have an effect of the thread, and a handler passes its `IsClosed` test only while
the server is open. -/
def Moves (s : Shared) (a : Thread) (outs : Outcomes) : Prop :=
  ∀ out ∈ outs, Effect s a out.1 ∧
    ∀ b ∈ out.2, b.pending = true → a.pending = true ∨ s.done = false

section Moves

variable {s₁ : Shared} {outs : Outcomes}

theorem moves_nil : Moves s a [] := List.forall_mem_nil _

theorem moves_cons (heffect : Effect s a s₁)
    (hbs : ∀ b ∈ bs, b.pending = true → a.pending = true ∨ s.done = false)
    (hrest : Moves s a outs) : Moves s a ((s₁, bs) :: outs) :=
  List.forall_mem_cons.mpr ⟨⟨heffect, hbs⟩, hrest⟩

/-- An outcome that leaves a thread which is no handler past its test. -/
theorem moves_on (heffect : Effect s a s₁) (hb : b.pending = false) (hrest : Moves s a outs) :
    Moves s a ((s₁, [b]) :: outs) := by
  refine moves_cons heffect (List.forall_mem_singleton.mpr fun h => ?_) hrest
  rw [hb] at h
  cases h

theorem moves_one (heffect : Effect s a s₁) (hb : b.pending = false) :
    Moves s a [(s₁, [b])] := moves_on heffect hb moves_nil

theorem moves_end (heffect : Effect s a s₁) : Moves s a [(s₁, [])] :=
  moves_cons heffect (List.forall_mem_nil _) moves_nil

/-- A handler past its test gets on. -/
theorem moves_pending (ha : a.pending = true) (heffect : Effect s a s₁) (hrest : Moves s a outs) :
    Moves s a ((s₁, bs) :: outs) := moves_cons heffect (fun _ _ _ => Or.inl ha) hrest

private theorem moves_close (s : Shared) (pc : ClosePc) : Moves s (.close pc) (closeStep s pc) := by
  cases pc with
  | select =>
      simp only [closeStep]
      split
      · exact moves_one .same rfl
      · exact moves_one .same rfl
  | doOnce =>
      simp only [closeStep]
      split
      · next hfresh => exact moves_one (.begin hfresh) rfl
      · exact moves_nil
      · exact moves_one .same rfl
  | closeDone => exact moves_one .closeDone rfl
  | lock =>
      simp only [closeStep]
      split
      · exact moves_nil
      · next hfree => exact moves_one (.enter (by simpa using hfree)) rfl
  | shutdown => exact moves_one .shutdown rfl
  | drain =>
      simp only [closeStep]
      split
      · exact moves_one .same rfl
      · exact moves_one .expire rfl
  | snapshot => exact moves_one .leave rfl
  | closeStream stream pkt =>
      cases stream with
      | true => exact moves_one .closeStream rfl
      | false => exact moves_one .same rfl
  | closePkt pkt =>
      cases pkt with
      | true => exact moves_one .closePkt rfl
      | false => exact moves_one .same rfl
  | finish => exact moves_one .finish rfl
  | wait hasty =>
      simp only [closeStep]
      split
      · next hwg => exact moves_end (.ret hwg)
      · exact moves_nil

theorem moves_run (s : Shared) (pc : RunPc) : Moves s (.runEventLoop pc) (runStep s pc) := by
  cases pc with
  | listen =>
      simp only [runStep]
      split
      · exact moves_end .same
      · exact moves_one .same rfl
  | bind => exact moves_on .same rfl (moves_end .same)
  | publish | register =>
      simp only [runStep]
      split
      · exact moves_nil
      · split
        · exact moves_end .same
        · exact moves_one .lock rfl
  | store => exact moves_one .store rfl
  | add => exact moves_one .add rfl
  | launch => exact moves_one .same rfl

private theorem moves_loop (s : Shared) (pc : LoopPc) : Moves s (.loop pc) (loopStep s pc) := by
  cases pc with
  | check delay =>
      simp only [loopStep]
      split
      · exact moves_one .same rfl
      · split
        · exact moves_one .same rfl
        · exact moves_one .same rfl
  | backoff delay | accept delay =>
      simp only [loopStep]
      split
      · exact moves_on .same rfl (moves_one .same rfl)
      · exact moves_one .same rfl
  | newSession delay => exact moves_one (.invoke (Or.inl rfl)) rfl
  | inNewSession delay =>
      simp only [loopStep]
      split
      · exact moves_on .same rfl (moves_one .closePkt rfl)
      · exact moves_on .same rfl (moves_one .same rfl)
  | run =>
      simp only [loopStep]
      split
      · exact moves_one (.start (Or.inl rfl)) rfl
      · exact moves_one (.start (Or.inl rfl)) rfl
  | setServer =>
      simp only [loopStep]
      split
      · exact moves_nil
      · exact moves_one .setServer rfl
  | startServe => exact moves_one .startServe rfl
  | serve =>
      simp only [loopStep]
      split
      · refine moves_cons .same ?_ (moves_one .endServe rfl)
        simp [Thread.pending]
      · exact moves_one .endServe rfl
  | exit => exact moves_end .exit

private theorem moves_conn (s : Shared) (pc : ConnPc) : Moves s (.conn pc) (connStep s pc) := by
  cases pc with
  | idle =>
      simp only [connStep]
      split
      · exact moves_end .same
      · exact moves_on .track rfl (moves_end .same)
  | method => exact moves_on .same rfl (moves_one .untrack rfl)
  | isClosed =>
      simp only [connStep]
      split
      · exact moves_one .untrack rfl
      · next hopen =>
          exact moves_cons .same (fun _ _ _ => Or.inr (by simpa using hopen)) moves_nil
  | upgrade =>
      exact moves_pending rfl .untrack (moves_pending rfl .untrack moves_nil)
  | sameAddr | inNewSession =>
      exact moves_pending rfl .same (moves_pending rfl .same moves_nil)
  | newSession => exact moves_pending rfl (.invoke (Or.inr rfl)) moves_nil
  | run => exact moves_pending rfl (.start (Or.inr rfl)) moves_nil

/-- **Inversion.** -/
theorem step_moves (s : Shared) (a : Thread) : Moves s a (step s a) := by
  cases a with
  | close pc => exact moves_close s pc
  | runEventLoop pc => exact moves_run s pc
  | loop pc => exact moves_loop s pc
  | conn pc => exact moves_conn s pc

theorem step_effect (h : (s', bs) ∈ step s a) : Effect s a s' := (step_moves s a _ h).1

end Moves

/-- Nobody enters the section of `stop` while `s.lock` is held. -/
theorem Effect.entered (h : Effect s a s') (hheld : s.locked = true) : s'.entered = s.entered := by
  cases h with
  | enter hfree =>
      rw [hfree] at hheld
      cases hheld
  | shutdown => unfold Shared.beginShutdown; split <;> rfl
  | store => unfold Shared.publish; split <;> rfl
  | _ => rfl

/-- No `Close` call returns while an event loop is registered. -/
theorem Effect.returned (h : Effect s a s') (hwg : s.wg ≠ 0) : s'.returned = s.returned := by
  cases h with
  | ret hzero => exact absurd hzero hwg
  | shutdown => unfold Shared.beginShutdown; split <;> rfl
  | store => unfold Shared.publish; split <;> rfl
  | _ => rfl

/-- What every thread may rely on: the closing of the server is not undone. -/
structure Steady (s s' : Shared) : Prop where
  endPointType : s'.endPointType = s.endPointType
  done : s.done = true → s'.done = true
  entered : s.entered = true → s'.entered = true
  finished : s.once = .finished → s'.once = .finished
  stream : s.entered = true → s'.streamListener.isSome = s.streamListener.isSome
  pkt : s.entered = true → s'.pktListener.isSome = s.pktListener.isSome
  streamClosed : s.entered = true → s.streamListener.all Listener.closed = true →
    s'.streamListener.all Listener.closed = true
  pktClosed : s.entered = true → s.pktListener.all Listener.closed = true →
    s'.pktListener.all Listener.closed = true

theorem closeStream_closed (s : Shared) :
    s.closeStream.streamListener.isSome = s.streamListener.isSome ∧
      s.closeStream.streamListener.all Listener.closed = true := by
  cases h : s.streamListener <;> simp [Shared.closeStream, h]

theorem closePkt_closed (s : Shared) :
    s.closePkt.pktListener.isSome = s.pktListener.isSome ∧
      s.closePkt.pktListener.all Listener.closed = true := by
  cases h : s.pktListener <;> simp [Shared.closePkt, h]

theorem Steady.refl (s : Shared) : Steady s s :=
  ⟨rfl, id, id, id, fun _ => rfl, fun _ => rfl, fun _ => id, fun _ => id⟩

/-- What else a step changes does not matter. -/
theorem Steady.congr (h : Steady s s') {t : Shared} (htype : t.endPointType = s'.endPointType)
    (hdone : t.done = s'.done) (hentered : t.entered = s'.entered) (honce : t.once = s'.once)
    (hstream : t.streamListener = s'.streamListener) (hpkt : t.pktListener = s'.pktListener) :
    Steady s t where
  endPointType := htype.trans h.endPointType
  done hs := hdone.trans (h.done hs)
  entered hs := hentered.trans (h.entered hs)
  finished hs := honce.trans (h.finished hs)
  stream hs := (congrArg Option.isSome hstream).trans (h.stream hs)
  pkt hs := (congrArg Option.isSome hpkt).trans (h.pkt hs)
  streamClosed hs hc := by rw [hstream]; exact h.streamClosed hs hc
  pktClosed hs hc := by rw [hpkt]; exact h.pktClosed hs hc

/-- A step that leaves the closing alone. -/
private theorem steady_of_same (htype : s'.endPointType = s.endPointType) (hdone : s'.done = s.done)
    (hentered : s'.entered = s.entered) (honce : s'.once = s.once)
    (hstream : s'.streamListener = s.streamListener) (hpkt : s'.pktListener = s.pktListener) :
    Steady s s' :=
  (Steady.refl s).congr htype hdone hentered honce hstream hpkt

private theorem steady_closeStream (s : Shared) : Steady s s.closeStream where
  endPointType := rfl
  done := id
  entered := id
  finished := id
  stream _ := (closeStream_closed s).1
  pkt _ := rfl
  streamClosed _ _ := (closeStream_closed s).2
  pktClosed _ := id

private theorem steady_closePkt (s : Shared) : Steady s s.closePkt where
  endPointType := rfl
  done := id
  entered := id
  finished := id
  stream _ := rfl
  pkt _ := (closePkt_closed s).1
  streamClosed _ := id
  pktClosed _ _ := (closePkt_closed s).2

/-- A listener is published only before `stop` has entered its section. -/
private theorem steady_publish (s : Shared) (hopen : s.entered = false) : Steady s s.publish := by
  have habsurd : ∀ {q : Prop}, s.entered = true → q := by
    intro q hentered
    rw [hopen] at hentered
    cases hentered
  unfold Shared.publish
  split <;> exact ⟨rfl, id, id, id, habsurd, habsurd, habsurd, habsurd⟩

/-- **No step undoes the closing**, unless a listener is published late. -/
theorem step_steady (hopen : a = .runEventLoop .store → s.entered = false)
    (h : (s', bs) ∈ step s a) : Steady s s' := by
  cases step_effect h with
  | same => exact .refl s
  | begin hfresh =>
      refine ⟨rfl, id, id, fun hfin => ?_, fun _ => rfl, fun _ => rfl, fun _ => id, fun _ => id⟩
      rw [hfresh] at hfin
      cases hfin
  | closeDone =>
      exact ⟨rfl, fun _ => rfl, id, id, fun _ => rfl, fun _ => rfl, fun _ => id, fun _ => id⟩
  | enter =>
      exact ⟨rfl, id, fun _ => rfl, id, fun _ => rfl, fun _ => rfl, fun _ => id, fun _ => id⟩
  | shutdown =>
      unfold Shared.beginShutdown
      split
      · exact (steady_closeStream s).congr rfl rfl rfl rfl rfl rfl
      · exact steady_of_same rfl rfl rfl rfl rfl rfl
  | closeStream => exact steady_closeStream s
  | closePkt => exact steady_closePkt s
  | finish =>
      exact ⟨rfl, id, id, fun _ => rfl, fun _ => rfl, fun _ => rfl, fun _ => id, fun _ => id⟩
  | store => exact (steady_publish s (hopen rfl)).congr rfl rfl rfl rfl rfl rfl
  | endServe => exact (steady_closeStream s).congr rfl rfl rfl rfl rfl rfl
  | _ => exact steady_of_same rfl rfl rfl rfl rfl rfl

/-- A closed server stays closed, and no server changes its type. -/
theorem step_done (h : (s', bs) ∈ step s a) :
    s'.endPointType = s.endPointType ∧ (s.done = true → s'.done = true) := by
  cases step_effect h with
  | closeDone => exact ⟨rfl, fun _ => rfl⟩
  | shutdown => unfold Shared.beginShutdown; split <;> exact ⟨rfl, id⟩
  | store => unfold Shared.publish; split <;> exact ⟨rfl, id⟩
  | _ => exact ⟨rfl, id⟩

theorem Steady.listenersClosed (h : Steady s s') (hentered : s.entered = true)
    (hclosed : s.listenersClosed = true) : s'.listenersClosed = true := by
  simp only [Shared.listenersClosed, Bool.and_eq_true] at hclosed ⊢
  exact ⟨h.streamClosed hentered hclosed.1, h.pktClosed hentered hclosed.2⟩

/-- What a thread knows stays true, given that nobody enters the section of `stop` while it
holds `s.lock` and no `Close` call returns while it is an event loop. -/
theorem Steady.local (h : Steady s s') (hl : Local s a)
    (hheld : a.holdsLock = true → s'.entered = s.entered)
    (hloop : a.looping = true → s'.returned = s.returned) : Local s' a := by
  have hws : s.endPointType.isWS = true → s'.endPointType.isWS = true :=
    fun hws => (congrArg EndPointType.isWS h.endPointType).trans hws
  cases a with
  | close pc =>
      cases pc with
      | select | doOnce | closeDone => trivial
      | lock => exact h.done hl
      | shutdown | drain | snapshot => exact h.entered hl
      | closeStream stream pkt =>
          exact ⟨h.entered hl.1, hl.2.1.trans (h.stream hl.1).symm,
            hl.2.2.trans (h.pkt hl.1).symm⟩
      | closePkt pkt =>
          exact ⟨h.entered hl.1, h.streamClosed hl.1 hl.2.1, hl.2.2.trans (h.pkt hl.1).symm⟩
      | finish => exact ⟨h.entered hl.1, h.listenersClosed hl.1 hl.2⟩
      | wait hasty => exact ⟨h.done hl.1, fun hh => h.finished (hl.2 hh)⟩
  | runEventLoop pc =>
      cases pc with
      | store | add => exact (hheld rfl).trans hl
      | _ => trivial
  | loop pc =>
      cases pc with
      | setServer | startServe | serve => exact hws hl
      | check delay | exit => trivial
      | _ => exact hl.imp (hloop rfl).trans h.endPointType.trans
  | conn pc => exact hws hl

/-- What a step has to show for itself. -/
abbrev Keeps (s : Shared) (a : Thread) (s' : Shared) (bs : List Thread) : Prop :=
  outline.Keeps s a s' bs

theorem keeps_one (hinv : Inv s') (hloc : Local s' b) (hbook : s'.book = s.book)
    (hdues : b.dues = a.dues) : Keeps s a s' [b] :=
  Outline.keeps_one hinv hloc fun i => by rw [val_of_book hbook, wt_of_dues hdues]

theorem keeps_end (hinv : Inv s') (hbook : s'.book = s.book)
    (hdues : a.dues = (false, false, false, false)) : Keeps s a s' [] := by
  refine Outline.keeps_end hinv fun i => ?_
  have hzero : outline.wt i a = outline.wt i (.close .select) := wt_of_dues hdues i
  rw [val_of_book hbook, hzero]
  cases i <;> exact Int.add_zero _

/-- One thread goes on, and the ledgers change with it. -/
theorem keeps_move (hinv : Inv s') (hloc : Local s' b)
    (hwg : s'.wg + a.looping.toNat = s.wg + b.looping.toNat)
    (hbody : (decide (s'.once = .running)).toNat + a.inBody.toNat =
      (decide (s.once = .running)).toNat + b.inBody.toNat)
    (hlock : s'.locked.toNat + a.holdsLock.toNat = s.locked.toNat + b.holdsLock.toNat)
    (htracked : s'.tracked + a.serves.toNat = s.tracked + b.serves.toNat) :
    Keeps s a s' [b] := by
  refine Outline.keeps_one hinv hloc fun i => ?_
  cases i with
  | wg => exact hwg
  | body => simp only [outline]; omega
  | lock => simp only [outline]; omega
  | tracked => simp only [outline]; omega

/-- The fields the invariant looks at. -/
def Shared.core (s : Shared) :
    Once × Bool × Bool × Option Listener × Option Listener × Int × Nat × Nat :=
  (s.once, s.done, s.entered, s.streamListener, s.pktListener, s.wg, s.returned, s.hasty)

theorem inv_of_core (hs : Inv s) (hcore : s'.core = s.core) : Inv s' := by
  simp only [Shared.core, Prod.mk.injEq] at hcore
  obtain ⟨honce, hdone, hentered, hstream, hpkt, hwg, hret, hhasty⟩ := hcore
  refine ⟨?_, ?_, ?_, ?_, ?_, ?_⟩
  · rw [honce, hdone]
    exact hs.fresh
  · rw [hentered, hdone]
    exact hs.entered
  · rw [honce, hentered, Shared.listenersClosed, hstream, hpkt]
    exact hs.finished
  · rw [hret, hdone]
    exact hs.returned
  · rw [hret, hhasty]
    exact hs.hasty
  · rw [hret, hhasty, honce, hwg]
    exact hs.settled

theorem inv_closeStream (hs : Inv s) : Inv s.closeStream := by
  refine ⟨hs.fresh, hs.entered, fun hfin => ?_, hs.returned, hs.hasty, hs.settled⟩
  obtain ⟨hentered, hclosed⟩ := hs.finished hfin
  refine ⟨hentered, ?_⟩
  simp only [Shared.listenersClosed, Bool.and_eq_true] at hclosed ⊢
  exact ⟨(closeStream_closed s).2, hclosed.2⟩

theorem inv_closePkt (hs : Inv s) : Inv s.closePkt := by
  refine ⟨hs.fresh, hs.entered, fun hfin => ?_, hs.returned, hs.hasty, hs.settled⟩
  obtain ⟨hentered, hclosed⟩ := hs.finished hfin
  refine ⟨hentered, ?_⟩
  simp only [Shared.listenersClosed, Bool.and_eq_true] at hclosed ⊢
  exact ⟨hclosed.1, (closePkt_closed s).2⟩

/-- A thread in the body of the `once` finds it running. -/
theorem Booked.running (hb : Booked s a) (h : a.inBody = true) : s.once = .running := by
  have hbody := hb .body
  by_contra hne
  simp [outline, h, hne] at hbody

/-- A thread that holds `s.lock` finds it taken. -/
theorem Booked.locked (hb : Booked s a) (h : a.holdsLock = true) : s.locked = true := by
  have hlock := hb .lock
  cases hl : s.locked with
  | true => rfl
  | false => simp [outline, h, hl] at hlock

/-! ## `Close` -/

private theorem keeps_closeStep {pc : ClosePc} (hs : Inv s) (hl : Local s (.close pc))
    (hb : Booked s (.close pc)) (h : (s', bs) ∈ closeStep s pc) : Keeps s (.close pc) s' bs := by
  cases pc with
  | select =>
      simp only [closeStep] at h
      split at h
      · next hdone =>
          cases List.mem_singleton.mp h
          refine keeps_one hs ⟨hdone, fun hne => ?_⟩ rfl rfl
          simpa using hne
      · cases List.mem_singleton.mp h
        exact keeps_one hs trivial rfl rfl
  | doOnce =>
      simp only [closeStep] at h
      split at h
      · next honce =>
          cases List.mem_singleton.mp h
          have hinv : Inv { s with once := .running } :=
            ⟨(fun h => by cases h), hs.entered, (fun h => by cases h), hs.returned, hs.hasty,
              (fun h => by rw [(hs.settled h).1] at honce; cases honce)⟩
          refine keeps_move hinv trivial rfl ?_ rfl rfl
          simp [honce, Thread.inBody]
      · cases h
      · next honce =>
          cases List.mem_singleton.mp h
          exact keeps_one hs ⟨hs.entered (hs.finished honce).1, fun _ => honce⟩ rfl rfl
  | closeDone =>
      cases List.mem_singleton.mp h
      have hrun := hb.running rfl
      have hinv : Inv { s with done := true } :=
        ⟨(fun h => by rw [hrun] at h; cases h), (fun _ => rfl),
          (fun h => by rw [hrun] at h; cases h), (fun _ => rfl), hs.hasty, hs.settled⟩
      exact keeps_one hinv rfl rfl rfl
  | lock =>
      obtain ⟨hfree, h⟩ := mem_blocked h
      cases h
      have hfree' : s.locked = false := by simpa using hfree
      have hrun := hb.running rfl
      have hinv : Inv { s with locked := true, entered := true } :=
        ⟨hs.fresh, (fun _ => hl), (fun h => by rw [hrun] at h; cases h), hs.returned,
          hs.hasty, hs.settled⟩
      split <;> exact keeps_move hinv rfl rfl rfl (by rw [hfree']; rfl) rfl
  | shutdown =>
      cases List.mem_singleton.mp h
      unfold Shared.beginShutdown
      split
      · exact keeps_one (inv_of_core (inv_closeStream hs) rfl) hl rfl rfl
      · exact keeps_one (inv_of_core hs rfl) hl rfl rfl
  | drain =>
      simp only [closeStep] at h
      split at h
      · cases List.mem_singleton.mp h
        exact keeps_one hs hl rfl rfl
      · cases List.mem_singleton.mp h
        exact keeps_one (inv_of_core hs rfl) hl rfl rfl
  | snapshot =>
      cases List.mem_singleton.mp h
      have hheld := hb.locked rfl
      refine keeps_move (inv_of_core hs rfl) ⟨hl, rfl, rfl⟩ rfl rfl ?_ rfl
      rw [hheld]
      rfl
  | closeStream stream pkt =>
      cases List.mem_singleton.mp h
      obtain ⟨hentered, hstream, hpkt⟩ := hl
      split
      · exact keeps_one (inv_closeStream hs) ⟨hentered, (closeStream_closed s).2, hpkt⟩ rfl rfl
      · next hno =>
          refine keeps_one hs ⟨hentered, ?_, hpkt⟩ rfl rfl
          rw [hstream] at hno
          cases hlis : s.streamListener with
          | none => rfl
          | some l => simp [hlis] at hno
  | closePkt pkt =>
      cases List.mem_singleton.mp h
      obtain ⟨hentered, hstream, hpkt⟩ := hl
      split
      · refine keeps_one (inv_closePkt hs) ⟨hentered, ?_⟩ rfl rfl
        simp only [Shared.listenersClosed, Bool.and_eq_true]
        exact ⟨hstream, (closePkt_closed s).2⟩
      · next hno =>
          refine keeps_one hs ⟨hentered, ?_⟩ rfl rfl
          rw [hpkt] at hno
          simp only [Shared.listenersClosed, Bool.and_eq_true]
          refine ⟨hstream, ?_⟩
          cases hlis : s.pktListener with
          | none => rfl
          | some l => simp [hlis] at hno
  | finish =>
      cases List.mem_singleton.mp h
      have hrun := hb.running rfl
      have hinv : Inv { s with once := .finished } :=
        ⟨(fun h => by cases h), hs.entered, (fun _ => hl), hs.returned, hs.hasty,
          (fun h => ⟨rfl, (hs.settled h).2⟩)⟩
      refine keeps_move hinv ⟨hs.entered hl.1, fun _ => rfl⟩ rfl ?_ rfl rfl
      rw [hrun]
      rfl
  | wait hasty =>
      obtain ⟨hwg, h⟩ := mem_guarded h
      cases h
      have hle := hs.hasty
      have hbit := Bool.toNat_le hasty
      have hinv : Inv (s.ret hasty) := by
        refine ⟨hs.fresh, hs.entered, hs.finished, fun _ => hl.1, ?_, fun hlt => ?_⟩
        · show s.hasty + hasty.toNat ≤ s.returned + 1
          omega
        · cases hasty with
          | false => exact ⟨hl.2 rfl, hwg⟩
          | true => exact hs.settled (Nat.lt_of_succ_lt_succ hlt)
      exact keeps_end hinv rfl rfl

/-! ## `RunEventLoop`, the event loops and the connections -/

/-- An open server has not entered the section of `stop`. -/
theorem Inv.open (hs : Inv s) (hopen : ¬ s.done = true) : s.entered = false := by
  cases hentered : s.entered with
  | false => rfl
  | true => exact absurd (hs.entered hentered) hopen

/-- Nor has it finished the body, or returned from it. -/
theorem Inv.unsettled (hs : Inv s) (hopen : s.entered = false) :
    s.once ≠ .finished ∧ ¬ s.hasty < s.returned := by
  have hne : s.once ≠ .finished := fun hfin => by
    rw [(hs.finished hfin).1] at hopen
    cases hopen
  exact ⟨hne, fun hlt => hne (hs.settled hlt).1⟩

private theorem keeps_runStep {pc : RunPc} (hs : Inv s) (hl : Local s (.runEventLoop pc))
    (hb : Booked s (.runEventLoop pc)) (h : (s', bs) ∈ runStep s pc) :
    Keeps s (.runEventLoop pc) s' bs := by
  cases pc with
  | listen =>
      simp only [runStep] at h
      split at h
      · cases List.mem_singleton.mp h
        exact keeps_end hs rfl rfl
      · cases List.mem_singleton.mp h
        exact keeps_one hs trivial rfl rfl
  | bind =>
      rcases List.mem_pair.mp h with h | h
      · cases h
        exact keeps_one hs trivial rfl rfl
      · cases h
        exact keeps_end hs rfl rfl
  | publish | register =>
      simp only [runStep] at h
      split at h
      · cases h
      · next hfree =>
          have hfree' : s.locked = false := by simpa using hfree
          split at h
          · cases List.mem_singleton.mp h
            exact keeps_end hs rfl rfl
          · next hopen =>
              cases List.mem_singleton.mp h
              exact keeps_move (inv_of_core hs rfl) (hs.open hopen) rfl rfl
                (by rw [hfree']; rfl) rfl
  | store =>
      cases List.mem_singleton.mp h
      have hheld := hb.locked rfl
      obtain ⟨hne, -⟩ := hs.unsettled hl
      unfold Shared.publish
      split
      · exact keeps_move ⟨hs.fresh, hs.entered, (fun hf => absurd hf hne), hs.returned,
          hs.hasty, hs.settled⟩ trivial rfl rfl (by rw [hheld]; rfl) rfl
      · exact keeps_move ⟨hs.fresh, hs.entered, (fun hf => absurd hf hne), hs.returned,
          hs.hasty, hs.settled⟩ trivial rfl rfl (by rw [hheld]; rfl) rfl
  | add =>
      cases List.mem_singleton.mp h
      have hheld := hb.locked rfl
      -- whoever waited for the body has not returned yet
      have hinv : Inv { s with wg := s.wg + 1, locked := false } :=
        ⟨hs.fresh, hs.entered, hs.finished, hs.returned, hs.hasty,
          (fun hlt => absurd hlt (hs.unsettled hl).2)⟩
      exact keeps_move hinv trivial (by simp [Thread.looping]) rfl (by rw [hheld]; rfl) rfl
  | launch =>
      cases List.mem_singleton.mp h
      cases htype : s.endPointType with
      | udpEndpoint => exact keeps_one hs (Or.inr htype) rfl rfl
      | tcpServer => exact keeps_one hs trivial rfl rfl
      | wsServer => exact keeps_one hs (congrArg EndPointType.isWS htype) rfl rfl
      | wssServer => exact keeps_one hs (congrArg EndPointType.isWS htype) rfl rfl

theorem inv_invoke (hs : Inv s) : Inv s.invoke := inv_of_core hs rfl

theorem inv_startSession (hs : Inv s) : Inv s.startSession := inv_of_core hs rfl

private theorem keeps_loopStep {pc : LoopPc} (hs : Inv s) (hl : Local s (.loop pc))
    (hb : Booked s (.loop pc)) (h : (s', bs) ∈ loopStep s pc) : Keeps s (.loop pc) s' bs := by
  cases pc with
  | check delay =>
      simp only [loopStep] at h
      split at h
      · cases List.mem_singleton.mp h
        exact keeps_one hs trivial rfl rfl
      · next hopen =>
          have hnone : s.accepting := by
            refine Or.inl (Nat.eq_zero_of_not_pos fun hpos => ?_)
            exact hopen (hs.returned hpos)
          split at h <;> cases List.mem_singleton.mp h <;> exact keeps_one hs hnone rfl rfl
  | backoff delay =>
      simp only [loopStep] at h
      split at h
      · rcases List.mem_pair.mp h with h | h <;> cases h
        · exact keeps_one hs hl rfl rfl
        · exact keeps_one hs trivial rfl rfl
      · cases List.mem_singleton.mp h
        exact keeps_one hs hl rfl rfl
  | accept delay =>
      simp only [loopStep] at h
      split at h
      · rcases List.mem_pair.mp h with h | h <;> cases h
        · exact keeps_one hs hl rfl rfl
        · exact keeps_one hs trivial rfl rfl
      · cases List.mem_singleton.mp h
        exact keeps_one hs trivial rfl rfl
  | newSession delay =>
      cases List.mem_singleton.mp h
      exact keeps_one (inv_invoke hs) hl rfl rfl
  | inNewSession delay =>
      simp only [loopStep] at h
      split at h
      · rcases List.mem_pair.mp h with h | h <;> cases h
        · exact keeps_one hs hl rfl rfl
        · exact keeps_one (inv_closePkt hs) trivial rfl rfl
      · rcases List.mem_pair.mp h with h | h <;> cases h
        · exact keeps_one hs hl rfl rfl
        · exact keeps_one hs trivial rfl rfl
  | run =>
      simp only [loopStep] at h
      split at h <;> cases List.mem_singleton.mp h <;>
        exact keeps_one (inv_startSession hs) trivial rfl rfl
  | setServer =>
      obtain ⟨-, h⟩ := mem_blocked h
      cases h
      exact keeps_one (inv_of_core hs rfl) hl rfl rfl
  | startServe =>
      cases List.mem_singleton.mp h
      exact keeps_one (inv_of_core hs rfl) hl rfl rfl
  | serve =>
      have hended : Keeps s (.loop .serve) { s.closeStream with serving := false } [.loop .exit] :=
        keeps_one (inv_of_core (inv_closeStream hs) rfl) trivial rfl rfl
      simp only [loopStep] at h
      split at h
      · rcases List.mem_pair.mp h with h | h
        · cases h
          refine ⟨hs, ?_, fun i => ?_⟩
          · intro b hb
            rcases List.mem_pair.mp hb with rfl | rfl
            · exact hl
            · exact hl
          · -- an idle connection has no weight
            have hidle : outline.wt i (.conn .idle) = 0 := by cases i <;> rfl
            rw [total_cons, total_cons, total_nil, hidle]
            omega
        · cases h
          exact hended
      · cases List.mem_singleton.mp h
        exact hended
  | exit =>
      cases List.mem_singleton.mp h
      have hpos : (1 : Int) ≤ s.wg := hb .wg
      have hinv : Inv { s with wg := s.wg - 1 } :=
        ⟨hs.fresh, hs.entered, hs.finished, hs.returned, hs.hasty,
          (fun hlt => by have := (hs.settled hlt).2; omega)⟩
      refine ⟨hinv, (fun b hb => by cases hb), fun i => ?_⟩
      cases i with
      | wg => simp [outline, Thread.looping]
      | _ => rfl

private theorem keeps_connStep {pc : ConnPc} (hs : Inv s) (hl : Local s (.conn pc))
    (hb : Booked s (.conn pc)) (h : (s', bs) ∈ connStep s pc) : Keeps s (.conn pc) s' bs := by
  -- a request that ends or is hijacked is no longer tracked
  have hleave : ∀ pc' : ConnPc, (Thread.conn pc).serves = true →
      (Thread.conn pc').serves = false → Keeps s (.conn pc) s.untrack [.conn pc'] := by
    intro pc' hserves hserves'
    have hpos : ((Thread.conn pc).serves.toNat : Int) ≤ s.tracked := hb .tracked
    refine keeps_move (inv_of_core hs rfl) hl rfl rfl rfl ?_
    rw [hserves] at hpos ⊢
    rw [hserves']
    simp only [Bool.toNat_true, Bool.toNat_false, Shared.untrack] at hpos ⊢
    omega
  cases pc with
  | idle =>
      simp only [connStep] at h
      split at h
      · cases List.mem_singleton.mp h
        exact keeps_end hs rfl rfl
      · rcases List.mem_pair.mp h with h | h
        · cases h
          exact keeps_move (inv_of_core hs rfl) hl rfl rfl rfl rfl
        · cases h
          exact keeps_end hs rfl rfl
  | method =>
      rcases List.mem_pair.mp h with h | h
      · cases h
        exact keeps_one hs hl rfl rfl
      · cases h
        exact hleave .idle rfl rfl
  | isClosed =>
      simp only [connStep] at h
      split at h
      · cases List.mem_singleton.mp h
        exact hleave .idle rfl rfl
      · cases List.mem_singleton.mp h
        exact keeps_one hs hl rfl rfl
  | upgrade =>
      rcases List.mem_pair.mp h with h | h
      · cases h
        exact hleave .sameAddr rfl rfl
      · cases h
        exact hleave .idle rfl rfl
  | sameAddr =>
      rcases List.mem_pair.mp h with h | h
      · cases h
        exact keeps_one hs hl rfl rfl
      · cases h
        exact keeps_end hs rfl rfl
  | newSession =>
      cases List.mem_singleton.mp h
      exact keeps_one (inv_invoke hs) hl rfl rfl
  | inNewSession =>
      rcases List.mem_pair.mp h with h | h
      · cases h
        exact keeps_one hs hl rfl rfl
      · cases h
        exact keeps_end hs rfl rfl
  | run =>
      cases List.mem_singleton.mp h
      exact keeps_end (inv_startSession hs) rfl rfl

/-! ## Every run -/

theorem outline_valid : outline.Valid prog where
  entry := by
    intro s a _ h
    cases a with
    | close pc =>
        cases pc with
        | select => exact ⟨trivial, fun i => by cases i <;> rfl⟩
        | _ => cases h
    | _ => cases h
  own := by
    intro s a s' bs hs hl hb h
    have hk : Keeps s a s' bs := by
      cases a with
      | close pc => exact keeps_closeStep hs hl hb h
      | runEventLoop pc => exact keeps_runStep hs hl hb h
      | loop pc => exact keeps_loopStep hs hl hb h
      | conn pc => exact keeps_connStep hs hl hb h
    exact hk
  other := by
    intro s a b s' bs _ hla hlb hb h
    have heffect := step_effect h
    have hbook : Booked s b := fun i => by have := hb i; omega
    refine (step_steady (fun ha => by subst ha; exact hla) h).local hlb
      (fun hheld => heffect.entered (hbook.locked hheld)) (fun hloop => heffect.returned ?_)
    have hle : (b.looping.toNat : Int) ≤ s.wg := hbook .wg
    rw [hloop] at hle
    simp only [Bool.toNat_true] at hle
    omega

theorem holds_reaches {t : EndPointType} {c : Conf Shared Thread}
    (h : prog.Reaches (initial t) c) : outline.Holds c := by
  refine outline_valid.holds_run ⟨?_, ?_, ?_⟩ h
  · exact ⟨(fun _ => rfl), (fun h => by cases h), (fun h => by cases h), (fun h => by cases h),
      Nat.le_refl _, (fun h => by cases h)⟩
  · intro a ha
    rw [List.mem_singleton.mp ha]
    trivial
  · intro i
    cases i <;> rfl

/-! ## No event loop after `Close` -/

/-- A returned `Close` call is not taken back, nor one that waited for the body. -/
theorem step_returned (h : (s', bs) ∈ step s a) :
    s.returned ≤ s'.returned ∧ s.returned + s'.hasty ≤ s'.returned + s.hasty := by
  cases step_effect h with
  | @ret hasty hwg =>
      have hbit := Bool.toNat_le hasty
      simp only [Shared.ret]
      omega
  | shutdown => unfold Shared.beginShutdown; split <;> exact ⟨Nat.le_refl _, Nat.le_refl _⟩
  | store => unfold Shared.publish; split <;> exact ⟨Nat.le_refl _, Nat.le_refl _⟩
  | _ => exact ⟨Nat.le_refl _, Nat.le_refl _⟩

/-- What has returned in a configuration has returned in all later ones. -/
private theorem returned_reaches {c c' : Conf Shared Thread} (h : prog.Reaches c c') :
    c.shared.returned ≤ c'.shared.returned ∧
      c.shared.returned + c'.shared.hasty ≤ c'.shared.returned + c.shared.hasty := by
  refine h.induct (fun d => c.shared.returned ≤ d.shared.returned ∧
    c.shared.returned + d.shared.hasty ≤ d.shared.returned + c.shared.hasty)
    ⟨Nat.le_refl _, Nat.le_refl _⟩ ?_
  intro d d' m hd hm
  rcases exec_cases hm with ⟨a, -, rfl⟩ | ⟨l, a, r, s', bs, -, hstep, rfl⟩
  · exact hd
  · have := step_returned hstep
    exact ⟨hd.1.trans this.1, by show _ + s'.hasty ≤ s'.returned + _; omega⟩

/-- **`Close` waits for the event loop.**  Once a `Close` call has returned that did not pass
by the running body of the `once`, no event loop runs or is ever started, and every listener
that was published is closed for good. -/
theorem close_waits_for_event_loop (t : EndPointType) (c : Conf Shared Thread)
    (h : prog.Reaches (initial t) c) (hret : c.shared.hasty < c.shared.returned) :
    ∀ c', prog.Reaches c c' →
      (∀ a ∈ c'.pool, a.looping = false) ∧ c'.shared.listenersClosed = true := by
  intro c' hc'
  have hc := outline_valid.holds_run (holds_reaches h) hc'
  have hmono := (returned_reaches hc').2
  obtain ⟨hfinished, hwg⟩ := hc.shared.settled (by omega)
  refine ⟨fun a ha => ?_, (hc.shared.finished hfinished).2⟩
  have hzero : a.looping.toNat = 0 := hc.weight_eq_zero ha (i := .wg) hwg
  simpa using hzero

/-- A `Close` call of a running server, and another one after it. -/
def closeTwice : List (Move Thread) :=
  List.replicate 7 (.fire 0 0) ++ .start (.close .select) :: List.replicate 8 (.fire 1 0) ++
    List.replicate 3 (.fire 0 0) ++ [.start (.close .select), .fire 0 0, .fire 0 0]

theorem close_waits_for_event_loop_twice :
    ∃ c, prog.Reaches (initial .tcpServer) c ∧ c.shared.returned = 2 ∧
      c.shared.streamListener = some ⟨true⟩ ∧ ∀ c', prog.Reaches c c' →
        (∀ a ∈ c'.pool, a.looping = false) ∧ c'.shared.listenersClosed = true := by
  have hrun : ∃ c ∈ prog.run (initial .tcpServer) closeTwice, c.shared.returned = 2 ∧
      c.shared.hasty = 0 ∧ c.shared.streamListener = some ⟨true⟩ := by
    decide +kernel
  obtain ⟨c, hc, hret, hhasty, hlis⟩ := hrun
  refine ⟨c, ⟨_, hc⟩, hret, hlis, close_waits_for_event_loop .tcpServer c ⟨_, hc⟩ ?_⟩
  rw [hret, hhasty]
  decide

/-- The first `Close` call has closed `done`, and a second one returns. -/
def closeOvertakes : List (Move Thread) :=
  .start (.close .select) :: List.replicate 3 (.fire 1 0) ++
    [.start (.close .select), .fire 2 0, .fire 2 0]

/-- A `Close` call that finds `done` closed waits for nothing: it returns while the listener
that was published is open, and while `RunEventLoop` is about to register its event loop,
which is started then. -/
theorem close_overtakes_body :
    (∃ c, prog.Reaches (initial .tcpServer) c ∧ c.shared.returned = 1 ∧
      c.shared.streamListener = some ⟨false⟩) ∧
    ∃ c c', prog.Reaches (initial .tcpServer) c ∧ c.shared.returned = 1 ∧
      prog.Reaches c c' ∧ .loop (.check 0) ∈ c'.pool := by
  constructor
  · have hrun : ∃ c ∈ prog.run (initial .tcpServer) (List.replicate 4 (.fire 0 0) ++
        closeOvertakes), c.shared.returned = 1 ∧ c.shared.streamListener = some ⟨false⟩ := by
      decide +kernel
    obtain ⟨c, hc, hret, hlis⟩ := hrun
    exact ⟨c, ⟨_, hc⟩, hret, hlis⟩
  · have hrun : ∃ c ∈ prog.run (initial .tcpServer) (List.replicate 5 (.fire 0 0) ++
        closeOvertakes), c.shared.returned = 1 ∧
        ∃ c' ∈ prog.run c [.fire 0 0, .fire 0 0], .loop (.check 0) ∈ c'.pool := by
      decide +kernel
    obtain ⟨c, hc, hret, c', hc', hloop⟩ := hrun
    exact ⟨c, c', ⟨_, hc⟩, hret, ⟨_, hc'⟩, hloop⟩

/-! ## No session after `Close` -/

/-- From `c` on, `NewSessionCallback` is not invoked and no session is started. -/
def NoSessionAfter (c : Conf Shared Thread) : Prop :=
  ∀ c', prog.Reaches c c' →
    c'.shared.invoked = c.shared.invoked ∧ c'.shared.started = c.shared.started

/-- **Step lemma.**  On a closed server, what is neither on the way to a session of the event
loop nor past the `IsClosed` test starts no session, and nobody passes the test. -/
theorem step_silent (h : (s', bs) ∈ step s a) (hdone : s.done = true)
    (haccepts : a.accepts = false) (hpend : a.pending = false) :
    s'.invoked = s.invoked ∧ s'.started = s.started ∧ ∀ b ∈ bs, b.pending = false := by
  have hnone : ∀ b ∈ bs, b.pending = false := by
    intro b hb
    cases hnew : b.pending with
    | false => rfl
    | true =>
        rcases (step_moves s a _ h).2 b hb hnew with hold | hopen
        · rw [hpend] at hold
          cases hold
        · rw [hdone] at hopen
          cases hopen
  have hidle : ¬ (a.accepts = true ∨ a.pending = true) := by simp [haccepts, hpend]
  cases step_effect h with
  | invoke hact | start hact => exact absurd hact hidle
  | shutdown => unfold Shared.beginShutdown; split <;> exact ⟨rfl, rfl, hnone⟩
  | store => unfold Shared.publish; split <;> exact ⟨rfl, rfl, hnone⟩
  | _ => exact ⟨rfl, rfl, hnone⟩

/-- A server that is closed, with no request handler past its `IsClosed` test.  A UDP endpoint
was closed by a call that did not pass by the running body. -/
structure Silent (c : Conf Shared Thread) : Prop where
  holds : outline.Holds c
  returned : 0 < c.shared.returned
  udp : c.shared.endPointType = .udpEndpoint → c.shared.hasty < c.shared.returned
  none : ∀ a ∈ c.pool, a.pending = false

/-- A thread on the way to a session knows that no `Close` call has returned. -/
private theorem accepting_of_accepts (hl : Local s a) (h : a.accepts = true) : s.accepting := by
  cases a with
  | loop pc =>
      cases pc with
      | backoff | accept | newSession | inNewSession | run => exact hl
      | _ => cases h
  | _ => cases h

/-- No event loop of a silent server is on the way to a session. -/
theorem Silent.accepts {c : Conf Shared Thread} (hc : Silent c) (ha : a ∈ c.pool) :
    a.accepts = false := by
  cases h : a.accepts with
  | false => rfl
  | true =>
      rcases accepting_of_accepts (hc.holds.loc a ha) h with hzero | hudp
      · exact absurd hc.returned (by omega)
      · have hwg := (hc.holds.shared.settled (hc.udp hudp)).2
        have hzero : a.looping.toNat = 0 := hc.holds.weight_eq_zero ha (i := .wg) hwg
        have hloop : a.looping = true := by
          cases a with
          | loop pc => rfl
          | _ => cases h
        rw [hloop] at hzero
        cases hzero

theorem Silent.exec {c c' : Conf Shared Thread} {m : Move Thread} (hc : Silent c)
    (hm : prog.exec c m = some c') :
    Silent c' ∧ c'.shared.invoked = c.shared.invoked ∧ c'.shared.started = c.shared.started := by
  have hholds' := outline_valid.holds_exec hc.holds hm
  have hdone := hc.holds.shared.returned hc.returned
  rcases exec_cases hm with ⟨a, hentry, rfl⟩ | ⟨l, a, r, s', bs, hpool, hstep, rfl⟩
  · refine ⟨⟨hholds', hc.returned, hc.udp, fun b hb => ?_⟩, rfl, rfl⟩
    rcases List.mem_append.mp hb with hb | hb
    · exact hc.none b hb
    · rw [List.mem_singleton.mp hb]
      cases a with
      | close pc => rfl
      | _ => cases hentry
  · have hmem : a ∈ c.pool := by rw [hpool]; simp
    obtain ⟨hinv, hst, hnew⟩ := step_silent hstep hdone (hc.accepts hmem) (hc.none a hmem)
    have hret := step_returned hstep
    refine ⟨⟨hholds', hc.returned.trans_le hret.1, fun htype => ?_, fun b hb => ?_⟩, hinv, hst⟩
    · have hlt := hc.udp ((step_done hstep).1.symm.trans htype)
      show s'.hasty < s'.returned
      omega
    · rcases List.mem_append.mp hb with hb | hb
      · rcases List.mem_append.mp hb with hb | hb
        · exact hc.none b (by rw [hpool]; simp [hb])
        · exact hnew b hb
      · exact hc.none b (by rw [hpool]; simp [hb])

/-- **Run lemma.**  A silent server starts no session. -/
theorem Silent.noSessionAfter {c : Conf Shared Thread} (hc : Silent c) : NoSessionAfter c := by
  intro c' hreach
  have hall : Silent c' ∧ c'.shared.invoked = c.shared.invoked ∧
      c'.shared.started = c.shared.started := by
    refine hreach.induct (fun d => Silent d ∧ d.shared.invoked = c.shared.invoked ∧
      d.shared.started = c.shared.started) ⟨hc, rfl, rfl⟩ ?_
    intro d d' m hd hm
    obtain ⟨hsilent, hinv, hst⟩ := hd.1.exec hm
    exact ⟨hsilent, hinv.trans hd.2.1, hst.trans hd.2.2⟩
  exact hall.2

/-- A handler makes a step that no other thread can prevent. -/
theorem NoSessionAfter.fire {c : Conf Shared Thread} (hc : NoSessionAfter c) {l r : List Thread}
    (hpool : c.pool = l ++ a :: r) (h : (s', bs) ∈ step c.shared a) :
    s'.invoked = c.shared.invoked ∧ s'.started = c.shared.started ∧
      NoSessionAfter ⟨s', l ++ bs ++ r⟩ := by
  obtain ⟨m, hm⟩ := exec_fire (p := prog) l r h
  rw [← hpool] at hm
  have hreach : ∀ d, prog.Reaches ⟨s', l ++ bs ++ r⟩ d → prog.Reaches c d := by
    rintro d ⟨ms, hms⟩
    exact ⟨m :: ms, by rw [run_cons, hm]; exact hms⟩
  obtain ⟨hinv, hst⟩ := hc _ (hreach _ ⟨[], rfl⟩)
  refine ⟨hinv, hst, fun d hd => ?_⟩
  obtain ⟨hinv', hst'⟩ := hc d (hreach d hd)
  exact ⟨hinv'.trans hinv.symm, hst'.trans hst.symm⟩

/-- A handler that has passed its `IsClosed` test can still start a session. -/
theorem pending_starts {c : Conf Shared Thread} (ha : a ∈ c.pool) (hpend : a.pending = true) :
    ¬ NoSessionAfter c := by
  intro hc
  obtain ⟨l, r, hpool⟩ := List.append_of_mem ha
  have hcall : ∀ c : Conf Shared Thread, ∀ l r, NoSessionAfter c →
      c.pool = l ++ .conn .newSession :: r → False := by
    intro c l r hc hpool
    have hcount := (hc.fire hpool (List.mem_singleton.mpr rfl)).1
    exact absurd hcount (Nat.succ_ne_self _)
  have hstart : ∀ c : Conf Shared Thread, ∀ l r, NoSessionAfter c →
      c.pool = l ++ .conn .run :: r → False := by
    intro c l r hc hpool
    have hcount := (hc.fire hpool (List.mem_singleton.mpr rfl)).2.1
    exact absurd hcount (Nat.succ_ne_self _)
  have hlate : ∀ c : Conf Shared Thread, ∀ l r, NoSessionAfter c →
      c.pool = l ++ .conn .sameAddr :: r → False := by
    intro c l r hc hpool
    have hnext := (hc.fire hpool (List.mem_cons_self ..)).2.2
    exact hcall _ l r hnext (List.append_assoc l [_] r)
  cases a with
  | conn pc =>
      cases pc with
      | upgrade =>
          have hnext := (hc.fire hpool (List.mem_cons_self ..)).2.2
          exact hlate _ l r hnext (List.append_assoc l [_] r)
      | sameAddr => exact hlate c l r hc hpool
      | newSession => exact hcall c l r hc hpool
      | inNewSession =>
          have hnext := (hc.fire hpool (List.mem_cons_self ..)).2.2
          exact hstart _ l r hnext (List.append_assoc l [_] r)
      | run => exact hstart c l r hc hpool
      | _ => cases hpend
  | _ => cases hpend

theorem endPointType_reaches {c c' : Conf Shared Thread} (h : prog.Reaches c c') :
    c'.shared.endPointType = c.shared.endPointType := by
  refine h.induct (fun d => d.shared.endPointType = c.shared.endPointType) rfl ?_
  intro d d' m hd hm
  rcases exec_cases hm with ⟨a, -, rfl⟩ | ⟨l, a, r, s', bs, -, hstep, rfl⟩
  · exact hd
  · exact (step_done hstep).1.trans hd

/-- **A closed server starts no session** if and only if no request handler has passed
its `IsClosed` test when `Close` returns.  A TCP or UDP server has no request handlers,
and so never starts one.  For a UDP endpoint, whose event loop does not test `done`, the
`Close` call must not have passed by the running body of the `once`. -/
theorem closed_server_starts_no_session_iff (t : EndPointType) (c : Conf Shared Thread)
    (h : prog.Reaches (initial t) c) (hret : 0 < c.shared.returned)
    (hudp : t = .udpEndpoint → c.shared.hasty < c.shared.returned) :
    (NoSessionAfter c ↔ ∀ a ∈ c.pool, a.pending = false) ∧
      (t.isWS = false → NoSessionAfter c) := by
  have hc := holds_reaches h
  have htype : c.shared.endPointType = t := endPointType_reaches h
  have hsilent : (∀ a ∈ c.pool, a.pending = false) → NoSessionAfter c := fun hnone =>
    Silent.noSessionAfter ⟨hc, hret, fun hu => hudp (htype.symm.trans hu), hnone⟩
  refine ⟨⟨?_, hsilent⟩, ?_⟩
  · intro hno a ha
    cases hp : a.pending with
    | false => rfl
    | true => exact absurd hno (pending_starts ha hp)
  · intro ht
    refine hsilent fun a ha => ?_
    cases a with
    | conn pc =>
        have hws : c.shared.endPointType.isWS = true := hc.loc _ ha
        rw [htype, ht] at hws
        cases hws
    | _ => rfl

/-- A websocket server runs and has accepted a connection. -/
def acceptConn : List (Move Thread) := List.replicate 10 (.fire 0 0)

/-- `Close` is called, shuts down the http server and returns. -/
def closeServer : List (Move Thread) :=
  .start (.close .select) :: List.replicate 10 (.fire 2 0) ++ [.fire 0 0, .fire 0 0, .fire 1 0]

/-- A request that is still before its `IsClosed` test when the deadline of `Shutdown`
passes starts no session. -/
theorem closed_server_starts_no_session_before_test :
    ∃ c, prog.Reaches (initial .wsServer) c ∧ c.shared.returned = 1 ∧
      c.pool = [.conn .method] ∧ NoSessionAfter c := by
  have hrun : ∃ c ∈ prog.run (initial .wsServer) (acceptConn ++ [.fire 1 0] ++ closeServer),
      c.shared.returned = 1 ∧ c.pool = [.conn .method] := by
    decide +kernel
  obtain ⟨c, hc, hret, hpool⟩ := hrun
  refine ⟨c, ⟨_, hc⟩, hret, hpool, ?_⟩
  refine (closed_server_starts_no_session_iff .wsServer c ⟨_, hc⟩ (by rw [hret]; decide)
    (fun h => by cases h)).1.mpr ?_
  simp [hpool, Thread.pending]

/-- A handler whose connection was hijacked before the only `Close` call invokes
`NewSessionCallback` and starts a session after the call has returned. -/
theorem session_started_after_close :
    ∃ c c', prog.Reaches (initial .wsServer) c ∧ c.shared.returned = 1 ∧
      c.shared.expired = false ∧ prog.Reaches c c' ∧ c.shared.invoked = 0 ∧
      c'.shared.invoked = 1 ∧ c.shared.started = 0 ∧ c'.shared.started = 1 := by
  have hrun : ∃ c ∈ prog.run (initial .wsServer)
      (acceptConn ++ List.replicate 4 (.fire 1 0) ++ closeServer),
      c.shared.returned = 1 ∧ c.shared.expired = false ∧ c.shared.invoked = 0 ∧
      c.shared.started = 0 ∧ ∃ c' ∈ prog.run c (List.replicate 4 (.fire 0 0)),
        c'.shared.invoked = 1 ∧ c'.shared.started = 1 := by
    decide +kernel
  obtain ⟨c, hc, hret, hexp, hinv, hst, c', hc', hinv', hst'⟩ := hrun
  exact ⟨c, c', ⟨_, hc⟩, hret, hexp, ⟨_, hc'⟩, hinv, hinv', hst, hst'⟩

end Getty.Transport.Server
