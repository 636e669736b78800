import Getty.Transport.WsMessages

/-!
# Receiving websocket messages

`handleWSPackage` of a session without a `Reader` and without a limit on the message size.
`recv` returns the next binary message; pings and pongs are handled inside it, and a close
frame ends the loop with an error.  Every message goes to `addTask`, which calls `OnMessage`
on the spot, or hands a task to the pool when the endpoint has one.

The threads are the read goroutine, the tasks in the pool and the session's `stop`.  Three
fields are ghosts: `reading` says that the read goroutine has not ended, `queued` lists what
was handed to `addTask`, and `dropped` what was thrown away because the session was closed.

Without a pool `OnMessage` sees the messages one by one in the order of the connection.  A
pool runs its tasks on several goroutines, so that it only sees the same messages.

## Main results

* `outline_valid` — the invariant survives every step.
* `loop_drains` — the read goroutine gets through everything that has arrived.
* `ws_write_preserves_packages` — from the calls of the sender to `OnMessage`.
-/

namespace Getty.Transport.WsReceive

open Getty.Verified.ThreadPool
open Getty.Transport.WriteCount (Arg Call Encoded)
open Getty.Transport.WsMessages (Frame messages)

/-! ## The receiving session -/

/-- Whether the endpoint has a task pool. -/
structure Cfg where
  taskPool : Bool
  deriving Repr, DecidableEq

/-- The frames that are still to be read, the closed flag, and what has become of the
messages. -/
structure Shared where
  inbox : List Frame
  closed : Bool
  reading : Bool
  queued : List Bytes
  dropped : List Bytes
  onMessage : List Bytes
  deriving Repr, DecidableEq

/-- The read goroutine: at the test of `IsClosed`, in `recv`, at the call of `addTask`, at the
tests of the task, or at the call of `OnMessage`. -/
inductive LoopPc where
  | isClosed
  | recv
  | addTask (pkg : Bytes)
  | test (pkg : Bytes)
  | onMessage (pkg : Bytes)
  deriving Repr, DecidableEq

inductive Thread where
  | loop (pc : LoopPc)
  | taskTest (pkg : Bytes)
  | taskRun (pkg : Bytes)
  | stop
  deriving Repr, DecidableEq

/-- `conn.recv`.  A timeout sends the loop back to its test, and any error ends it, whereupon
the session is stopped. -/
def recvStep (s : Shared) : List (Shared × List Thread) :=
  let next : List (Shared × List Thread) :=
    match s.inbox with
    | [] => []
    | .binary b :: inbox => [({ s with inbox := inbox }, [.loop (.addTask b)])]
    | .close :: _ => []
    | _ :: inbox => [({ s with inbox := inbox }, [.loop .recv])]
  next ++ [(s, [.loop .isClosed]), ({ s with closed := true, reading := false }, [])]

def Shared.deliver (s : Shared) (pkg : Bytes) : Shared :=
  { s with onMessage := s.onMessage ++ [pkg] }

def Shared.drop (s : Shared) (pkg : Bytes) : Shared := { s with dropped := s.dropped ++ [pkg] }

/-- The read goroutine. -/
def loopStep (cfg : Cfg) (s : Shared) : LoopPc → List (Shared × List Thread)
  | .isClosed => if s.closed then [({ s with reading := false }, [])] else [(s, [.loop .recv])]
  | .recv => recvStep s
  | .addTask pkg =>
      let s := { s with queued := s.queued ++ [pkg] }
      if cfg.taskPool then [(s, [.loop .isClosed, .taskTest pkg])] else [(s, [.loop (.test pkg)])]
  | .test pkg =>
      if s.closed then [(s.drop pkg, [.loop .isClosed])] else [(s, [.loop (.onMessage pkg)])]
  | .onMessage pkg => [(s.deliver pkg, [.loop .isClosed])]

def step (cfg : Cfg) (s : Shared) : Thread → List (Shared × List Thread)
  | .loop pc => loopStep cfg s pc
  | .taskTest pkg => if s.closed then [(s.drop pkg, [])] else [(s, [.taskRun pkg])]
  | .taskRun pkg => [(s.deliver pkg, [])]
  | .stop => [({ s with closed := true }, [])]

def prog (cfg : Cfg) : Prog Shared Thread where
  entry _ th := th == .stop
  step := step cfg

/-- A session that starts to read what the other side has sent. -/
def initial (frames : List Frame) : Conf Shared Thread :=
  ⟨⟨frames, false, true, [], [], []⟩, [.loop .isClosed]⟩

/-! ## The invariant -/

/-- The messages that `recv` can return: a close frame is the end. -/
def incoming (frames : List Frame) : List Bytes := messages (frames.takeWhile (· ≠ .close))

/-- The message the read goroutine has in hand before it is queued. -/
def LoopPc.inHand : LoopPc → List Bytes
  | .addTask pkg => [pkg]
  | _ => []

/-- The message that is queued and not through yet. -/
def LoopPc.pending : LoopPc → List Bytes
  | .test pkg => [pkg]
  | .onMessage pkg => [pkg]
  | _ => []

def Thread.pending : Thread → List Bytes
  | .loop pc => pc.pending
  | .taskTest pkg => [pkg]
  | .taskRun pkg => [pkg]
  | .stop => []

/-- What holds of the session in every state. -/
structure Inv (cfg : Cfg) (frames : List Frame) (s : Shared) : Prop where
  queued : s.queued <+: incoming frames
  ordered : cfg.taskPool = false → s.onMessage <+: s.queued
  dropped : s.closed = false → s.dropped = []
  reading : s.closed = false → s.reading = true

/-- Without a pool, the read goroutine drops a message only on its way out. -/
structure InOrder (s : Shared) (pc : LoopPc) : Prop where
  kept : pc ≠ .isClosed → s.dropped = []
  order : s.dropped = [] → s.onMessage ++ pc.pending = s.queued

/-- What a thread knows.  Only a pool has tasks. -/
def Local (cfg : Cfg) (frames : List Frame) (s : Shared) : Thread → Prop
  | .loop pc => s.queued ++ pc.inHand ++ incoming s.inbox = incoming frames ∧
      (cfg.taskPool = false → InOrder s pc)
  | .taskTest _ => cfg.taskPool = true
  | .taskRun _ => cfg.taskPool = true
  | .stop => True

def Thread.loops : Thread → Bool
  | .loop _ => true
  | _ => false

/-- The ledgers: the read goroutine, and every message that is queued and neither with
`OnMessage` nor dropped. -/
inductive Ledger where
  | loops
  | pending (pkg : Bytes)

def outline (cfg : Cfg) (frames : List Frame) : Outline Shared Thread Ledger where
  shared := Inv cfg frames
  loc := Local cfg frames
  val
    | .loops, s => s.reading.toNat
    | .pending pkg, s => s.queued.count pkg - s.onMessage.count pkg - s.dropped.count pkg
  wt
    | .loops, th => th.loops.toNat
    | .pending pkg, th => th.pending.count pkg

variable {cfg : Cfg} {frames : List Frame} {s s' : Shared} {a b : Thread} {bs : List Thread}

/-! ## The steps -/

@[simp] theorem incoming_binary (p : Bytes) (inbox : List Frame) :
    incoming (.binary p :: inbox) = p :: incoming inbox := rfl

/-- What a step of the outline has to show for itself. -/
abbrev Keeps (cfg : Cfg) (frames : List Frame) (s : Shared) (a : Thread) (s' : Shared)
    (bs : List Thread) : Prop :=
  (outline cfg frames).Keeps s a s' bs

/-- The ledgers of a step. -/
theorem keeps_intro (hinv : Inv cfg frames s') (hloc : ∀ b ∈ bs, Local cfg frames s' b)
    (hloops : s'.reading.toNat + a.loops.toNat =
      s.reading.toNat + (bs.map fun b => b.loops.toNat).sum)
    (hpending : ∀ pkg, s'.queued.count pkg + s.onMessage.count pkg + s.dropped.count pkg +
        a.pending.count pkg =
      s.queued.count pkg + s'.onMessage.count pkg + s'.dropped.count pkg +
        (bs.map fun b => b.pending.count pkg).sum) : Keeps cfg frames s a s' bs := by
  refine ⟨hinv, hloc, fun i => ?_⟩
  cases i with
  | loops =>
      simp only [outline, total]
      omega
  | pending pkg =>
      have := hpending pkg
      simp only [outline, total]
      omega

private theorem keeps_isClosed (hinv : Inv cfg frames s) (hl : Local cfg frames s (.loop .isClosed))
    (hread : s.reading = true) (h : (s', bs) ∈ step cfg s (.loop .isClosed)) :
    Keeps cfg frames s (.loop .isClosed) s' bs := by
  simp only [step, loopStep] at h
  split at h
  · next hclosed =>
      refine Outline.keeps_of_eq (List.mem_singleton.mp h) (keeps_intro ?_ nofun ?_ fun pkg => rfl)
      · refine ⟨hinv.queued, hinv.ordered, hinv.dropped, fun hopen => ?_⟩
        rw [show s.closed = false from hopen] at hclosed
        cases hclosed
      · rw [hread]
        rfl
  · next hopen =>
      rw [Bool.not_eq_true] at hopen
      refine Outline.keeps_of_eq (List.mem_singleton.mp h) (keeps_intro hinv ?_ rfl fun pkg => rfl)
      intro b hb
      rw [List.mem_singleton.mp hb]
      exact ⟨hl.1, fun hp => ⟨fun _ => hinv.dropped hopen, (hl.2 hp).order⟩⟩

/-- `recv` returns a message, handles a control frame, or has nothing to return. -/
private theorem recv_cases (h : (s', bs) ∈ step cfg s (.loop .recv)) :
    (∃ p inbox, s.inbox = .binary p :: inbox ∧
        (s', bs) = ({ s with inbox := inbox }, [.loop (.addTask p)])) ∨
      (∃ inbox, incoming inbox = incoming s.inbox ∧
        (s', bs) = ({ s with inbox := inbox }, [.loop .recv])) ∨
      (s', bs) = (s, [.loop .isClosed]) ∨
      (s', bs) = ({ s with closed := true, reading := false }, []) := by
  simp only [step, loopStep, recvStep, List.mem_append, List.mem_pair] at h
  rcases h with h | h | h
  · cases hi : s.inbox with
    | nil => simp [hi] at h
    | cons f inbox =>
        cases f with
        | binary p =>
            simp only [hi, List.mem_singleton] at h
            exact Or.inl ⟨p, inbox, rfl, h⟩
        | close => simp [hi] at h
        | ping =>
            simp only [hi, List.mem_singleton] at h
            exact Or.inr (Or.inl ⟨inbox, rfl, h⟩)
        | pong p =>
            simp only [hi, List.mem_singleton] at h
            exact Or.inr (Or.inl ⟨inbox, rfl, h⟩)
  · exact Or.inr (Or.inr (Or.inl h))
  · exact Or.inr (Or.inr (Or.inr h))

private theorem keeps_recv (hinv : Inv cfg frames s) (hl : Local cfg frames s (.loop .recv))
    (hread : s.reading = true) (h : (s', bs) ∈ step cfg s (.loop .recv)) :
    Keeps cfg frames s (.loop .recv) s' bs := by
  rcases recv_cases h with ⟨p, inbox, hi, heq⟩ | ⟨inbox, hi, heq⟩ | heq | heq
  · refine Outline.keeps_of_eq heq (keeps_intro
      ⟨hinv.queued, hinv.ordered, hinv.dropped, hinv.reading⟩ ?_ rfl fun pkg => rfl)
    intro b hb
    rw [List.mem_singleton.mp hb]
    refine ⟨?_, fun hp => ⟨fun _ => (hl.2 hp).kept nofun, (hl.2 hp).order⟩⟩
    have hall := hl.1
    rw [hi, incoming_binary] at hall
    show s.queued ++ [p] ++ incoming inbox = incoming frames
    rw [List.append_assoc]
    simpa [LoopPc.inHand] using hall
  · refine Outline.keeps_of_eq heq (keeps_intro
      ⟨hinv.queued, hinv.ordered, hinv.dropped, hinv.reading⟩ ?_ rfl fun pkg => rfl)
    intro b hb
    rw [List.mem_singleton.mp hb]
    refine ⟨?_, fun hp => ⟨(hl.2 hp).kept, (hl.2 hp).order⟩⟩
    show s.queued ++ [] ++ incoming inbox = incoming frames
    rw [hi]
    exact hl.1
  · refine Outline.keeps_of_eq heq (keeps_intro hinv ?_ rfl fun pkg => rfl)
    intro b hb
    rw [List.mem_singleton.mp hb]
    exact ⟨hl.1, fun hp => ⟨nofun, (hl.2 hp).order⟩⟩
  · refine Outline.keeps_of_eq heq (keeps_intro ⟨hinv.queued, hinv.ordered, nofun, nofun⟩ nofun ?_
      fun pkg => rfl)
    rw [hread]
    rfl

private theorem keeps_addTask {p : Bytes} (hinv : Inv cfg frames s)
    (hl : Local cfg frames s (.loop (.addTask p)))
    (h : (s', bs) ∈ step cfg s (.loop (.addTask p))) :
    Keeps cfg frames s (.loop (.addTask p)) s' bs := by
  have hall : s.queued ++ [p] ++ incoming s.inbox = incoming frames := hl.1
  have hinv' : Inv cfg frames { s with queued := s.queued ++ [p] } := by
    refine ⟨⟨incoming s.inbox, hall⟩, fun hp => ?_, hinv.dropped, hinv.reading⟩
    exact (hinv.ordered hp).trans (List.prefix_append _ _)
  have hloop : ∀ pc, pc.inHand = [] → (cfg.taskPool = false → pc.pending = [p] ∧ pc ≠ .isClosed) →
      Local cfg frames { s with queued := s.queued ++ [p] } (.loop pc) := by
    intro pc hhand hpool
    refine ⟨by rw [hhand, List.append_nil]; exact hall, fun hp => ?_⟩
    have hkept := (hl.2 hp).kept nofun
    refine ⟨fun _ => hkept, fun _ => ?_⟩
    have horder := (hl.2 hp).order hkept
    simp only [LoopPc.pending, List.append_nil] at horder
    show s.onMessage ++ pc.pending = s.queued ++ [p]
    rw [(hpool hp).1, horder]
  simp only [step, loopStep] at h
  split at h
  · next hpool =>
      refine Outline.keeps_of_eq (List.mem_singleton.mp h) (keeps_intro hinv' ?_ rfl fun pkg => ?_)
      · intro b hb
        rcases List.mem_pair.mp hb with rfl | rfl
        · exact hloop .isClosed rfl (fun hp => by rw [hpool] at hp; cases hp)
        · exact hpool
      · simp [Thread.pending, LoopPc.pending]
        omega
  · refine Outline.keeps_of_eq (List.mem_singleton.mp h) (keeps_intro hinv' ?_ rfl fun pkg => ?_)
    · intro b hb
      rw [List.mem_singleton.mp hb]
      exact hloop (.test p) rfl (fun _ => ⟨rfl, nofun⟩)
    · simp [Thread.pending, LoopPc.pending]
      omega

/-- A message is dropped once the session is closed. -/
theorem drop_inv {p : Bytes} (hinv : Inv cfg frames s) (hclosed : s.closed = true) :
    Inv cfg frames (s.drop p) := by
  have hopen : ∀ {P : Prop}, s.closed = false → P := by
    intro P h
    rw [hclosed] at h
    cases h
  exact ⟨hinv.queued, hinv.ordered, hopen, hopen⟩

private theorem keeps_test {p : Bytes} (hinv : Inv cfg frames s)
    (hl : Local cfg frames s (.loop (.test p)))
    (h : (s', bs) ∈ step cfg s (.loop (.test p))) :
    Keeps cfg frames s (.loop (.test p)) s' bs := by
  simp only [step, loopStep] at h
  split at h
  · next hclosed =>
      refine Outline.keeps_of_eq (List.mem_singleton.mp h)
        (keeps_intro (drop_inv hinv hclosed) ?_ rfl fun pkg => ?_)
      · intro b hb
        rw [List.mem_singleton.mp hb]
        refine ⟨hl.1, fun _ => ⟨nofun, fun hnil => ?_⟩⟩
        exact absurd hnil (by simp [Shared.drop])
      · simp [Thread.pending, LoopPc.pending, Shared.drop]
        omega
  · refine Outline.keeps_of_eq (List.mem_singleton.mp h) (keeps_intro hinv ?_ rfl fun pkg => rfl)
    intro b hb
    rw [List.mem_singleton.mp hb]
    exact ⟨hl.1, fun hp => ⟨fun _ => (hl.2 hp).kept nofun, (hl.2 hp).order⟩⟩

private theorem keeps_onMessage {p : Bytes} (hinv : Inv cfg frames s)
    (hl : Local cfg frames s (.loop (.onMessage p)))
    (h : (s', bs) ∈ step cfg s (.loop (.onMessage p))) :
    Keeps cfg frames s (.loop (.onMessage p)) s' bs := by
  have horder : cfg.taskPool = false → s.onMessage ++ [p] = s.queued :=
    fun hp => (hl.2 hp).order ((hl.2 hp).kept nofun)
  refine Outline.keeps_of_eq (List.mem_singleton.mp h) (keeps_intro ?_ ?_ rfl fun pkg => ?_)
  · refine ⟨hinv.queued, fun hp => ?_, hinv.dropped, hinv.reading⟩
    exact (horder hp).symm ▸ List.prefix_rfl
  · intro b hb
    rw [List.mem_singleton.mp hb]
    refine ⟨hl.1, fun hp => ⟨nofun, fun _ => ?_⟩⟩
    show s.onMessage ++ [p] ++ [] = s.queued
    rw [List.append_nil, horder hp]
  · simp [Thread.pending, LoopPc.pending, Shared.deliver]
    omega

private theorem keeps_task {p : Bytes} (hinv : Inv cfg frames s) (hpool : cfg.taskPool = true)
    (ha : a = .taskTest p ∨ a = .taskRun p) (h : (s', bs) ∈ step cfg s a) :
    Keeps cfg frames s a s' bs := by
  have hdeliver : Inv cfg frames (s.deliver p) :=
    ⟨hinv.queued, (fun hp => by rw [hpool] at hp; cases hp), hinv.dropped, hinv.reading⟩
  rcases ha with rfl | rfl
  · simp only [step] at h
    split at h
    · next hclosed =>
        refine Outline.keeps_of_eq (List.mem_singleton.mp h)
          (keeps_intro (drop_inv hinv hclosed) nofun rfl fun pkg => ?_)
        simp [Thread.pending, Shared.drop]
        omega
    · refine Outline.keeps_of_eq (List.mem_singleton.mp h) (keeps_intro hinv ?_ rfl fun pkg => rfl)
      intro b hb
      rw [List.mem_singleton.mp hb]
      exact hpool
  · refine Outline.keeps_of_eq (List.mem_singleton.mp h)
      (keeps_intro hdeliver nofun rfl fun pkg => ?_)
    simp [Thread.pending, Shared.deliver]
    omega

/-- **A step of any thread keeps the invariant.** -/
theorem step_keeps (hinv : Inv cfg frames s) (hl : Local cfg frames s a)
    (hread : a.loops = true → s.reading = true) (h : (s', bs) ∈ step cfg s a) :
    Keeps cfg frames s a s' bs := by
  cases a with
  | loop pc =>
      cases pc with
      | isClosed => exact keeps_isClosed hinv hl (hread rfl) h
      | recv => exact keeps_recv hinv hl (hread rfl) h
      | addTask p => exact keeps_addTask hinv hl h
      | test p => exact keeps_test hinv hl h
      | onMessage p => exact keeps_onMessage hinv hl h
  | taskTest p => exact keeps_task hinv hl (Or.inl rfl) h
  | taskRun p => exact keeps_task hinv hl (Or.inr rfl) h
  | stop =>
      exact Outline.keeps_of_eq (List.mem_singleton.mp h)
        (keeps_intro ⟨hinv.queued, hinv.ordered, nofun, nofun⟩ nofun rfl fun pkg => rfl)

/-- The tasks and `stop` leave the read goroutine's work alone, and without a pool there are no
tasks. -/
private theorem step_other (ha : a.loops = false) (hl : Local cfg frames s a)
    (h : (s', bs) ∈ step cfg s a) : s'.queued = s.queued ∧ s'.inbox = s.inbox ∧
      (cfg.taskPool = false → s'.onMessage = s.onMessage ∧ s'.dropped = s.dropped) := by
  cases a with
  | loop pc => cases ha
  | taskTest p => grind [step, Shared.drop, Local]
  | taskRun p => grind [step, Shared.deliver, Local]
  | stop => grind [step]

theorem outline_valid (cfg : Cfg) (frames : List Frame) :
    (outline cfg frames).Valid (prog cfg) where
  entry := by
    intro s a _ ha
    simp only [prog, beq_iff_eq] at ha
    subst ha
    exact ⟨trivial, fun i => by cases i <;> rfl⟩
  own := by
    intro s a s' bs hinv hl hb h
    have hread : a.loops = true → s.reading = true := by
      intro ha
      have hle := hb .loops
      cases hs : s.reading with
      | true => rfl
      | false => simp [outline, ha, hs] at hle
    exact step_keeps hinv hl hread h
  other := by
    intro s a b s' bs hinv ha hb hpair h
    cases b with
    | loop pc =>
        have hle : (a.loops.toNat : Int) + 1 ≤ s.reading.toNat := hpair .loops
        have hone : s.reading.toNat ≤ 1 := Bool.toNat_le _
        have haloop : a.loops = false := by
          cases hl : a.loops with
          | false => rfl
          | true =>
              rw [hl, Bool.toNat_true] at hle
              omega
        obtain ⟨hqueued, hinbox, hpool⟩ := step_other haloop ha h
        refine ⟨?_, fun hp => ?_⟩
        · rw [hqueued, hinbox]
          exact hb.1
        · obtain ⟨honMessage, hdropped⟩ := hpool hp
          refine ⟨?_, ?_⟩
          · rw [hdropped]
            exact (hb.2 hp).kept
          · rw [hdropped, honMessage, hqueued]
            exact (hb.2 hp).order
    | taskTest p => exact hb
    | taskRun p => exact hb
    | stop => trivial

private theorem holds_initial (cfg : Cfg) (frames : List Frame) :
    (outline cfg frames).Holds (initial frames) := by
  refine ⟨⟨List.nil_prefix, fun _ => List.prefix_rfl, fun _ => rfl, fun _ => rfl⟩, ?_, ?_⟩
  · intro a ha
    rw [List.mem_singleton.mp ha]
    exact ⟨rfl, fun _ => ⟨nofun, fun _ => rfl⟩⟩
  · intro i
    cases i <;> rfl

private theorem holds_reaches {d : Conf Shared Thread} (h : (prog cfg).Reaches (initial frames) d) :
    (outline cfg frames).Holds d :=
  (outline_valid cfg frames).holds_run (holds_initial cfg frames) h

/-! ## The read goroutine gets through -/

/-- The session is open and has dealt with everything that has arrived: the read goroutine is
in `recv`, and there is no other work. -/
structure Drained (d : Conf Shared Thread) : Prop where
  open_ : d.shared.closed = false
  empty : incoming d.shared.inbox = []
  waits : .loop .recv ∈ d.pool
  idle : ∀ th ∈ d.pool, th = .loop .recv ∨ th = .stop

/-- A drained session has queued every message, and `OnMessage` has got every one, in order if
there is no pool. -/
theorem Drained.all {d : Conf Shared Thread} (h : Drained d) (hd : (outline cfg frames).Holds d) :
    d.shared.queued = incoming frames ∧ d.shared.onMessage.Perm (incoming frames) ∧
      (cfg.taskPool = false → d.shared.onMessage = incoming frames) := by
  obtain ⟨hall, horder⟩ := hd.loc _ h.waits
  have hdropped := hd.shared.dropped h.open_
  rw [h.empty, List.append_nil] at hall
  simp only [LoopPc.inHand, List.append_nil] at hall
  refine ⟨hall, ?_, fun hp => ?_⟩
  · rw [← hall, List.perm_iff_count]
    intro pkg
    have hzero : total ((outline cfg frames).wt (.pending pkg)) d.pool = 0 := by
      refine total_eq_zero _ fun th hth => ?_
      rcases h.idle th hth with rfl | rfl
      · rfl
      · rfl
    have hcount := hd.ledger (.pending pkg)
    rw [hzero] at hcount
    simp only [outline, hdropped, List.count_nil] at hcount
    omega
  · have := (horder hp).order hdropped
    simp only [LoopPc.pending, List.append_nil] at this
    rw [this, hall]

/-- How far a thread is from `recv` or from its end. -/
def Thread.weight : Thread → Nat
  | .loop .isClosed => 1
  | .loop .recv => 0
  | .loop (.addTask _) => 6
  | .loop (.test _) => 3
  | .loop (.onMessage _) => 2
  | .taskTest _ => 2
  | .taskRun _ => 1
  | .stop => 0

/-- What is left to do. -/
def work (s : Shared) (pool : List Thread) : Nat :=
  8 * s.inbox.length + (pool.map Thread.weight).sum

/-- The thread has a step that leaves less to do and the session open. -/
def Progress (cfg : Cfg) (s : Shared) (a : Thread) : Prop :=
  ∃ s' bs, (s', bs) ∈ step cfg s a ∧ s'.closed = false ∧ work s' bs < work s [a]

/-- In an open session a thread that has something to do can do it. -/
private theorem weight_progress (cfg : Cfg) (hopen : s.closed = false) (ha : 0 < a.weight) :
    Progress cfg s a := by
  cases a with
  | loop pc =>
      cases pc with
      | isClosed =>
          refine ⟨s, [.loop .recv], ?_, hopen, ?_⟩
          · simp [step, loopStep, hopen]
          · simp [work, Thread.weight]
      | recv => cases ha
      | addTask p =>
          cases hp : cfg.taskPool with
          | true =>
              refine ⟨{ s with queued := s.queued ++ [p] }, [.loop .isClosed, .taskTest p], ?_,
                hopen, ?_⟩
              · simp [step, loopStep, hp]
              · simp [work, Thread.weight]
          | false =>
              refine ⟨{ s with queued := s.queued ++ [p] }, [.loop (.test p)], ?_, hopen, ?_⟩
              · simp [step, loopStep, hp]
              · simp [work, Thread.weight]
      | test p =>
          refine ⟨s, [.loop (.onMessage p)], ?_, hopen, ?_⟩
          · simp [step, loopStep, hopen]
          · simp [work, Thread.weight]
      | onMessage p =>
          refine ⟨s.deliver p, [.loop .isClosed], List.mem_singleton_self _, hopen, ?_⟩
          simp [work, Thread.weight, Shared.deliver]
  | taskTest p =>
      refine ⟨s, [.taskRun p], ?_, hopen, ?_⟩
      · simp [step, hopen]
      · simp [work, Thread.weight]
  | taskRun p =>
      refine ⟨s.deliver p, [], List.mem_singleton_self _, hopen, ?_⟩
      simp [work, Thread.weight, Shared.deliver]
  | stop => cases ha

/-- With messages to come `recv` returns, or handles a control frame. -/
private theorem recv_progress (cfg : Cfg) (hopen : s.closed = false) (hne : incoming s.inbox ≠ []) :
    Progress cfg s (.loop .recv) := by
  cases hi : s.inbox with
  | nil => exact absurd (by rw [hi]; rfl) hne
  | cons f inbox =>
      cases f with
      | close => exact absurd (by rw [hi]; rfl) hne
      | binary p =>
          refine ⟨{ s with inbox := inbox }, [.loop (.addTask p)], ?_, hopen, ?_⟩
          · simp [step, loopStep, recvStep, hi]
          · simp [work, Thread.weight, hi]
            omega
      | ping =>
          refine ⟨{ s with inbox := inbox }, [.loop .recv], ?_, hopen, ?_⟩
          · simp [step, loopStep, recvStep, hi]
          · simp [work, Thread.weight, hi]
      | pong p =>
          refine ⟨{ s with inbox := inbox }, [.loop .recv], ?_, hopen, ?_⟩
          · simp [step, loopStep, recvStep, hi]
          · simp [work, Thread.weight, hi]

private theorem weight_zero (h : a.weight = 0) : a = .loop .recv ∨ a = .stop := by
  cases a with
  | loop pc =>
      cases pc with
      | recv => exact Or.inl rfl
      | _ => cases h
  | stop => exact Or.inr rfl
  | _ => cases h

/-- An open session has a read goroutine. -/
private theorem exists_loop {d : Conf Shared Thread} (hd : (outline cfg frames).Holds d)
    (hopen : d.shared.closed = false) : ∃ pc, .loop pc ∈ d.pool := by
  by_contra hno
  have hzero : total ((outline cfg frames).wt .loops) d.pool = 0 := by
    refine total_eq_zero _ fun th hth => ?_
    cases th with
    | loop pc => exact absurd ⟨pc, hth⟩ hno
    | _ => rfl
  have hval := hd.ledger .loops
  rw [hzero] at hval
  simp [outline, hd.shared.reading hopen] at hval

/-- An open session is drained, or one of its threads can do something. -/
private theorem drained_or_progress {d : Conf Shared Thread} (hd : (outline cfg frames).Holds d)
    (hopen : d.shared.closed = false) :
    Drained d ∨ ∃ a ∈ d.pool, Progress cfg d.shared a := by
  by_cases hwork : ∃ a ∈ d.pool, 0 < a.weight
  · obtain ⟨a, ha, hpos⟩ := hwork
    exact Or.inr ⟨a, ha, weight_progress cfg hopen hpos⟩
  · have hidle : ∀ th ∈ d.pool, th = .loop .recv ∨ th = .stop := by
      intro th hth
      refine weight_zero (Nat.eq_zero_of_not_pos fun hpos => hwork ⟨th, hth, hpos⟩)
    obtain ⟨pc, hpc⟩ := exists_loop hd hopen
    have hrecv : .loop .recv ∈ d.pool := by
      rcases hidle _ hpc with h | h
      · rw [← h]
        exact hpc
      · cases h
    by_cases hempty : incoming d.shared.inbox = []
    · exact Or.inl ⟨hopen, hempty, hrecv, hidle⟩
    · exact Or.inr ⟨_, hrecv, recv_progress cfg hopen hempty⟩

private theorem work_middle {l r : List Thread} (h : work s' bs < work s [a]) :
    work s' (l ++ bs ++ r) < work s (l ++ a :: r) := by
  simp only [work, List.map_append, List.map_cons, List.map_nil, List.sum_append, List.sum_cons,
    List.sum_nil] at h ⊢
  omega

/-- **The read goroutine gets through** everything that has arrived. -/
theorem loop_drains {d : Conf Shared Thread} (hd : (outline cfg frames).Holds d)
    (hopen : d.shared.closed = false) : ∃ d', (prog cfg).Reaches d d' ∧ Drained d' := by
  induction hn : work d.shared d.pool using Nat.strong_induction_on generalizing d with
  | _ n ih =>
      rcases drained_or_progress hd hopen with hdrained | ⟨a, ha, s', bs, hstep, hopen', hless⟩
      · exact ⟨d, ⟨[], rfl⟩, hdrained⟩
      · obtain ⟨l, r, hpool⟩ := List.append_of_mem ha
        have hfire : (s', bs) ∈ (prog cfg).step d.shared a := hstep
        obtain ⟨m, hm⟩ := exec_fire l r hfire
        rw [show (⟨d.shared, l ++ a :: r⟩ : Conf Shared Thread) = d by rw [← hpool]] at hm
        have hlt : work s' (l ++ bs ++ r) < n := by
          rw [← hn, hpool]
          exact work_middle hless
        obtain ⟨d', ⟨ms, hms⟩, hdrained⟩ :=
          ih _ hlt ((outline_valid cfg frames).holds_exec hd hm) hopen' rfl
        refine ⟨d', ⟨m :: ms, ?_⟩, hdrained⟩
        rw [run_cons, hm, Option.bind_some, hms]

/-! ## From the calls to `OnMessage` -/

/-- **WebSocket writes preserve package boundaries and batches.**  Take any run of concurrent
write calls, with control frames and the end of the session at any time, after which all calls
have returned, have succeeded and have found the connection.  The binary messages are those of
the calls, one per package, one call after the other in some order.  A session that reads them
without a `Reader` and without a limit queues them in this order; without a task pool
`OnMessage` gets them in this order as well; and as long as the session is open it can get to
the point where `OnMessage` has got every one exactly once. -/
theorem ws_write_preserves_packages (wcfg : WsMessages.Cfg) (calls : List Call)
    {c : Conf WsMessages.Shared WsMessages.Thread}
    (hrun : (WsMessages.prog wcfg).Reaches (WsMessages.initial calls) c)
    (hdone : ∀ d pc logged, WsMessages.Thread.call d pc logged ∉ c.pool)
    (hclean : WsMessages.Clean c.shared) :
    ∃ order : List Call, order.Perm calls ∧
      messages c.shared.frames = order.flatMap Call.packages ∧
      ∀ cfg d, (prog cfg).Reaches (initial c.shared.frames) d →
        d.shared.queued <+: order.flatMap Call.packages ∧
        (cfg.taskPool = false → d.shared.onMessage <+: order.flatMap Call.packages) ∧
        (d.shared.closed = false → ∃ d', (prog cfg).Reaches d d' ∧ Drained d') ∧
        (Drained d → d.shared.onMessage.Perm (order.flatMap Call.packages) ∧
          (cfg.taskPool = false → d.shared.onMessage = order.flatMap Call.packages)) := by
  obtain ⟨hperm, hmessages, htail⟩ := WsMessages.messages_of_calls hrun hdone hclean
  have hincoming : incoming c.shared.frames = c.shared.order.flatMap Call.packages :=
    htail.trans hmessages
  refine ⟨c.shared.order, hperm, hmessages, fun cfg d hd => ?_⟩
  have hholds := holds_reaches hd
  rw [← hincoming]
  refine ⟨hholds.shared.queued, fun hp => ?_, loop_drains hholds, fun hdrained => ?_⟩
  · exact (hholds.shared.ordered hp).trans hholds.shared.queued
  · exact (hdrained.all hholds).2

/-- A batch of two packages and a `Send`. -/
def batchAndSend : List Call := [.writeBytesArray [[1], [2]], .send (.bytes [3])]

/-- There is a ping between the messages of the batch, and the `Send` comes after it. -/
def batchAndPing : List (Move WsMessages.Thread) :=
  List.replicate 6 (.fire 0 0) ++ [.start (.control .ping false), .fire 2 0, .fire 2 0] ++
    List.replicate 12 (.fire 0 0)

/-- Without a pool `OnMessage` gets the three packages in the order of the connection. -/
theorem ws_write_preserves_packages_batch :
    ∃ c, (WsMessages.prog ⟨0⟩).Reaches (WsMessages.initial batchAndSend) c ∧
      c.shared.frames = [.binary [1], .ping, .binary [2], .binary [3]] ∧
      ∃ d, (prog ⟨false⟩).Reaches (initial c.shared.frames) d ∧
        d.shared.onMessage = [[1], [2], [3]] := by
  have hrun : (WsMessages.prog ⟨0⟩).run (WsMessages.initial batchAndSend) batchAndPing =
      some ⟨⟨0, false, false, false, true, [.binary [1], .ping, .binary [2], .binary [3]],
        batchAndSend, [], false, false⟩, []⟩ := rfl
  refine ⟨_, ⟨_, hrun⟩, rfl, ?_⟩
  obtain ⟨order, -, hmessages, hreceive⟩ := ws_write_preserves_packages ⟨0⟩ batchAndSend
    ⟨_, hrun⟩ (fun _ _ _ h => nomatch h) ⟨rfl, rfl⟩
  obtain ⟨d, hd, hdrained⟩ := (hreceive ⟨false⟩ _ ⟨[], rfl⟩).2.2.1 rfl
  exact ⟨d, hd, (((hreceive ⟨false⟩ d hd).2.2.2 hdrained).2 rfl).trans hmessages.symm⟩

/-- The read goroutine queues two tasks, and the pool runs the second one first. -/
def overtaken : List (Move Thread) := List.replicate 7 (.fire 0 0) ++ List.replicate 4 (.fire 1 0)

/-- With a task pool `OnMessage` may get the packages of a batch in another order. -/
theorem onMessage_out_of_order :
    ∃ c d, (WsMessages.prog ⟨0⟩).Reaches (WsMessages.initial [.writeBytesArray [[1], [2]]]) c ∧
      c.pool = [] ∧ WsMessages.Clean c.shared ∧ messages c.shared.frames = [[1], [2]] ∧
      (prog ⟨true⟩).Reaches (initial c.shared.frames) d ∧ Drained d ∧
      d.shared.onMessage = [[2], [1]] := by
  have hwrite : (WsMessages.prog ⟨0⟩).run (WsMessages.initial [.writeBytesArray [[1], [2]]])
      (List.replicate 11 (.fire 0 0)) =
      some ⟨⟨0, false, false, false, true, [.binary [1], .binary [2]],
        [.writeBytesArray [[1], [2]]], [], false, false⟩, []⟩ := rfl
  have hread : (prog ⟨true⟩).run (initial [.binary [1], .binary [2]]) overtaken =
      some ⟨⟨[], false, true, [[1], [2]], [], [[2], [1]]⟩, [.loop .recv]⟩ := rfl
  refine ⟨_, _, ⟨_, hwrite⟩, rfl, ⟨rfl, rfl⟩, rfl, ⟨_, hread⟩, ⟨rfl, rfl, ?_, ?_⟩, rfl⟩
  · exact List.mem_singleton_self _
  · intro th hth
    exact Or.inl (List.mem_singleton.mp hth)

end Getty.Transport.WsReceive
