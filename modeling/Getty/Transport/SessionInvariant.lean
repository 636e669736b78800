import Getty.Transport.SessionLifecycle

/-!
# The invariant of a session

The proof outline of `Session.prog`.  Nine ledgers tie the counters and flags of
the session to the goroutines behind them: `grWG`, the lifecycle count of every
generation, who runs the body of a `stop`, the reset worker, the two sides of
`packetLock`, the callback depth, and the goroutines of the close callbacks and
of the connection cleanup.

The order of the reset worker's waits is what the invariant follows.  Once the
body of `stop` is finished nobody enters it again, and the lifecycle is closed;
once `grWG` has reached zero under a pending reset it stays there, so no `gc`
but the worker's own can register a cleanup; so once the lifecycle count has
reached zero it stays there as well, until the worker starts a new generation.
-/

namespace Getty.Transport.Session

open Getty.Verified.ThreadPool

/-! ## What a thread is accountable for -/

def Cont.gr : Cont → Bool
  | .opening => true
  | .shutdown _ => true
  | _ => false

def Cont.holds : Cont → Option Nat
  | .cron l => some l
  | _ => none

def Cont.isReset : Cont → Bool
  | .reset => true
  | _ => false

/-- The `once` body the call is in. -/
def StopPc.body : StopPc → Option Nat
  | .readOnce => none
  | .doOnce _ => none
  | .closeDone g => some g
  | .takeTimer g => some g
  | .stopTimer g _ _ => some g
  | .closeLifecycle g _ => some g
  | .closeCallbacks g _ => some g
  | .attrClient g => some g
  | .attrIgnore g _ => some g
  | .runReconnect g => some g
  | .finish g => some g

def GcCont.gr : GcCont → Bool
  | .reset _ => false
  | _ => true

def GcCont.isReset : GcCont → Bool
  | .reset _ => true
  | _ => false

def TaskPc.holding : TaskPc → Bool
  | .acquire => false
  | _ => true

def CronPc.holding : CronPc → Bool
  | .fire => false
  | .acquire => false
  | _ => true

def WritePc.holds : WritePc → Option Nat
  | .encode l => some l
  | .encoding l => some l
  | .lock l _ => l
  | .conn l _ => l
  | .send l _ _ => l
  | .unlock l _ => l
  | .release l => some l
  | _ => none

/-- The generation in which the write got `packetLock`, while it has it. -/
def WritePc.locked : WritePc → Option Nat
  | .conn _ g => some g
  | .send _ _ g => some g
  | .unlock _ g => some g
  | _ => none

/-- The thread is registered in `grWG`: `run`, or the read goroutine. -/
def Thread.gr : Thread → Bool
  | .stop _ k => k.gr
  | .gc k => k.gr
  | .run .register => false
  | .run _ => true
  | .read _ => true
  | .task _ inline _ => inline
  | _ => false

/-- The lifecycle the thread has acquired. -/
def Thread.holds : Thread → Option Nat
  | .stop _ k => k.holds
  | .task l _ pc => if pc.holding then some l else none
  | .cron l pc => if pc.holding then some l else none
  | .write _ pc => pc.holds
  | .callbacks l _ => some l
  | .cleanup l _ => some l
  | _ => none

def Thread.body : Thread → Option Nat
  | .stop pc _ => pc.body
  | _ => none

/-- The thread is the reset worker. -/
def Thread.isWorker : Thread → Bool
  | .stop _ k => k.isReset
  | .gc k => k.isReset
  | .worker _ => true
  | _ => false

/-- The thread has `packetLock` for reading. -/
def Thread.reads : Thread → Bool
  | .write k pc => pc.locked.isSome && !k.exclusive
  | _ => false

/-- The thread has `packetLock` for writing. -/
def Thread.writes : Thread → Bool
  | .write k pc => pc.locked.isSome && k.exclusive
  | .worker (.clear _) => true
  | .worker (.unlock _) => true
  | _ => false

/-- The thread executes a user callback. -/
def Thread.calls : Thread → Bool
  | .run .inOpen => true
  | .read .decoding => true
  | .read .inError => true
  | .read .inClose => true
  | .task _ _ .inMessage => true
  | .cron _ .inCron => true
  | .write _ (.encoding _) => true
  | .callbacks _ .inside => true
  | _ => false

/-- The generation whose close callbacks the thread invokes. -/
def Thread.invokes : Thread → Option Nat
  | .callbacks l .enter => some l
  | .callbacks l .inside => some l
  | _ => none

/-- The generation whose connection the thread closes. -/
def Thread.closes : Thread → Option Nat
  | .cleanup l .closeConn => some l
  | _ => none

/-! ## The outline -/

/-- Sessions whose end triggers a reconnect. -/
def reconnecting : Attrs := ⟨true, some false⟩

/-- The invariant of one generation. -/
structure Gen.Ok (x : Gen) : Prop where
  idle : x.once = .fresh → x.bodies = 0 ∧ x.reconnects = 0 ∧ x.callbacks = .fresh
  entered : x.once ≠ .fresh → x.bodies = 1
  reconnects : x.reconnects ≤ 1
  finished : x.once = .finished → x.done = true ∧ x.closed = true ∧ x.callbacks ≠ .fresh ∧
    (x.carried = reconnecting → x.reconnects = 1)
  returned : x.returned = true → x.once = .finished

/-- The invariant of the session. -/
structure Inv (s : Shared) : Prop where
  ok : ∀ g, (s.gens g).Ok
  past : ∀ g < s.gen, (s.gens g).once = .finished ∧ (s.gens g).count = 0
  future : ∀ g, s.gen < g → s.gens g = Gen.fresh
  attrs : s.cur.once ≠ .finished → s.attrs = some s.cur.carried
  cleanup : s.attrs.isSome = true → s.cur.cleanup = .fresh
  detached : s.attrs = none → s.conn = none
  installed : ∀ g, (s.gens g).installed = true →
    (g = s.gen ∧ s.conn.isSome = true) ∨ (s.gens g).cleanup ≠ .fresh
  lock : s.writing = true → s.readers = 0
  wheel : ∀ g, s.gen < g → s.wheel g = 0

/-- The body of `stop` before it registers the close callbacks. -/
structure Gen.Early (x : Gen) : Prop where
  callbacks : x.callbacks = .fresh
  reconnects : x.reconnects = 0

/-- The body of `stop` after it has registered the close callbacks. -/
structure Gen.Late (x : Gen) : Prop where
  done : x.done = true
  closed : x.closed = true
  callbacks : x.callbacks ≠ .fresh

/-- The assertion of `stop`. -/
def StopAt (s : Shared) : StopPc → Prop
  | .readOnce => True
  | .doOnce g => g ≤ s.gen
  | .closeDone g => g = s.gen ∧ s.cur.Early
  | .takeTimer g => g = s.gen ∧ s.cur.Early ∧ s.cur.done = true
  | .stopTimer g l _ => g = s.gen ∧ l = s.gen ∧ s.cur.Early ∧ s.cur.done = true
  | .closeLifecycle g l => g = s.gen ∧ l = s.gen ∧ s.cur.Early ∧ s.cur.done = true
  | .closeCallbacks g l =>
      g = s.gen ∧ l = s.gen ∧ s.cur.Early ∧ s.cur.done = true ∧ s.cur.closed = true
  | .attrClient g => g = s.gen ∧ s.cur.Late ∧ s.cur.reconnects = 0
  | .attrIgnore g found =>
      g = s.gen ∧ s.cur.Late ∧ s.cur.reconnects = 0 ∧ found = s.cur.carried.client
  | .runReconnect g =>
      g = s.gen ∧ s.cur.Late ∧ s.cur.reconnects = 0
  | .finish g =>
      g = s.gen ∧ s.cur.Late ∧ (s.cur.carried = reconnecting → s.cur.reconnects = 1)

/-- The caller keeps the generation from changing until `stop` returns. -/
def ContAt (s : Shared) (k : Cont) : StopPc → Prop
  | .doOnce g => k = .close ∨ g = s.gen
  | _ => True

/-- What the reset worker has waited for. -/
def WorkerAt (s : Shared) : WorkerPc → Prop
  | .closeConn => s.cur.once = .finished
  | .takeTimer => s.cur.once = .finished
  | .stopTimer l _ => s.cur.once = .finished ∧ l = s.gen
  | .closeLifecycle l => s.cur.once = .finished ∧ l = s.gen
  | .waitGr l => s.cur.once = .finished ∧ l = s.gen
  | .waitLifecycle l =>
      s.cur.once = .finished ∧ l = s.gen ∧ s.grWG = 0 ∧ s.attrs = none ∧ s.conn = none
  | .lock l =>
      s.cur.once = .finished ∧ l = s.gen ∧ s.grWG = 0 ∧ s.attrs = none ∧ s.conn = none ∧
        s.cur.count = 0
  | .clear l =>
      s.cur.once = .finished ∧ l = s.gen ∧ s.grWG = 0 ∧ s.attrs = none ∧ s.conn = none ∧
        s.cur.count = 0
  | .unlock l => s.gen = l + 1 ∧ s.grWG = 0 ∧ s.conn = none
  | .deliver (some l) => s.gen = l + 1 ∧ s.grWG = 0 ∧ s.conn = none
  | .deliver none => True

/-- The assertion of a thread. -/
def Local (s : Shared) : Thread → Prop
  | .stop pc k => StopAt s pc ∧ ContAt s k pc
  | .gc (.reset l) => s.cur.once = .finished ∧ l = s.gen ∧ s.grWG = 0
  | .gc _ => s.cur.once = .finished
  | .read .onError => s.cur.once = .finished
  | .read .inError => s.cur.once = .finished
  | .read .onClose => s.cur.once = .finished
  | .read .inClose => s.cur.once = .finished
  | .task l _ .acquire => l ≤ s.gen
  | .cron l .fire => l ≤ s.gen
  | .cron l .acquire => l ≤ s.gen
  | .write _ (.acquire l) => l ≤ s.gen
  | .write _ pc => ∀ g, pc.locked = some g → g = s.gen
  | .worker pc => WorkerAt s pc
  | _ => True

inductive Ledger where
  | gr
  | count (g : Nat)
  | body (g : Nat)
  | worker
  | readers
  | writing
  | depth
  | callbacks (g : Nat)
  | cleanup (g : Nat)

/-- Whether a `sync.Once` is running, as a number. -/
def Once.run (x : Once) : Nat := (decide (x = .running)).toNat

@[simp] theorem Once.run_fresh : Once.run .fresh = 0 := rfl

@[simp] theorem Once.run_running : Once.run .running = 1 := rfl

@[simp] theorem Once.run_finished : Once.run .finished = 0 := rfl

def outline : Outline Shared Thread Ledger where
  shared := Inv
  loc := Local
  val
    | .gr, s => s.grWG
    | .count g, s => (s.gens g).count
    | .body g, s => Once.run (s.gens g).once
    | .worker, s => s.resetRun.isSome.toNat
    | .readers, s => s.readers
    | .writing, s => s.writing.toNat
    | .depth, s => s.callbackDepth
    | .callbacks g, s => Once.run (s.gens g).callbacks
    | .cleanup g, s => Once.run (s.gens g).cleanup
  wt
    | .gr, th => th.gr.toNat
    | .count g, th => (th.holds == some g).toNat
    | .body g, th => (th.body == some g).toNat
    | .worker, th => th.isWorker.toNat
    | .readers, th => th.reads.toNat
    | .writing, th => th.writes.toNat
    | .depth, th => th.calls.toNat
    | .callbacks g, th => (th.invokes == some g).toNat
    | .cleanup g, th => (th.closes == some g).toNat

/-- The ledgers bound a thread's own weights. -/
abbrev Booked (s : Shared) (th : Thread) : Prop := outline.Booked s th

/-! ## What a step does to the others -/

/-- The thread is about to clear the fields. -/
def Thread.isClear : Thread → Bool
  | .worker (.clear _) => true
  | _ => false

/-- A step on one generation; `own` when the thread is in its `stop` body. -/
structure GenStep (own : Prop) (x y : Gen) : Prop where
  done : x.done = true → y.done = true
  closed : x.closed = true → y.closed = true
  finished : x.once = .finished → y.once = .finished
  running : x.once = .running → y.once = .running ∨ own
  early : x.callbacks = .fresh → y.callbacks = .fresh ∨ own
  late : x.callbacks ≠ .fresh → y.callbacks ≠ .fresh
  reconnects : y.reconnects = x.reconnects ∨ own
  carried : y.carried = x.carried ∨ x.once = .fresh

theorem GenStep.refl (own : Prop) (x : Gen) : GenStep own x x :=
  ⟨id, id, id, Or.inl, Or.inl, id, Or.inl rfl, Or.inl rfl⟩

/-- What the other threads may rely on when thread `a` takes a step. -/
structure Frame (s : Shared) (a : Thread) (s' : Shared) : Prop where
  gen : s'.gen = s.gen ∨ (a.isClear = true ∧ s'.gen = s.gen + 1)
  gens : ∀ g, GenStep (a.body = some g) (s.gens g) (s'.gens g)
  count : ∀ g, (s'.gens g).count = (s.gens g).count ∨ (s.gens g).closed = false ∨
    a.body = some g ∨ a.holds = some g ∨ ∃ k, a = .gc k
  gr : s'.grWG = s.grWG ∨ s.resetRun = none ∨ a.gr = true
  attrs : s.attrs = none → s'.attrs = none ∨ a.isClear = true ∨ s.resetRun = none
  conn : s.conn = none → s'.conn = none ∨ s.resetRun = none

/-- What a step has to deliver. -/
structure Keeps (s : Shared) (a : Thread) (s' : Shared) (bs : List Thread) : Prop where
  frame : Frame s a s'
  keeps : outline.Keeps s a s' bs

section Own

variable {s s' : Shared} {a : Thread} {bs : List Thread}

/-- A step that changes one generation, and at most counters that only the ledgers
look at. -/
structure Touch (s : Shared) (g : Nat) (f : Gen → Gen) (s' : Shared) : Prop where
  gen : s'.gen = s.gen
  gens : s'.gens = Function.update s.gens g (f (s.gens g))
  conn : s'.conn = s.conn
  attrs : s'.attrs = s.attrs
  grWG : s'.grWG = s.grWG
  resetRun : s'.resetRun = s.resetRun
  lock : (s.writing = true → s.readers = 0) → s'.writing = true → s'.readers = 0
  wheel : ∀ g, s.gen < g → s'.wheel g = s.wheel g

theorem touch_modGen (s : Shared) (g : Nat) (f : Gen → Gen) : Touch s g f (s.modGen g f) :=
  ⟨rfl, rfl, rfl, rfl, rfl, rfl, id, fun _ _ => rfl⟩

/-- What an update has to respect to keep the invariant. -/
structure Safe (s : Shared) (a : Thread) (g : Nat) (f : Gen → Gen) : Prop where
  le : g ≤ s.gen
  step : GenStep (a.body = some g) (s.gens g) (f (s.gens g))
  ok : (s.gens g).Ok → (f (s.gens g)).Ok
  past : g < s.gen → (f (s.gens g)).count = (s.gens g).count
  carried : (f (s.gens g)).carried = (s.gens g).carried
  installed : (f (s.gens g)).installed = (s.gens g).installed
  cleanup : (s.gens g).cleanup = .fresh ↔ (f (s.gens g)).cleanup = .fresh
  count : (f (s.gens g)).count = (s.gens g).count ∨ (s.gens g).closed = false ∨
    a.body = some g ∨ a.holds = some g ∨ ∃ k, a = .gc k

theorem Touch.gens_self {g : Nat} {f : Gen → Gen} (ht : Touch s g f s') :
    s'.gens g = f (s.gens g) := by
  rw [ht.gens, Function.update_self]

theorem Touch.gens_of_ne {g j : Nat} {f : Gen → Gen} (ht : Touch s g f s') (h : j ≠ g) :
    s'.gens j = s.gens j := by
  rw [ht.gens, Function.update_of_ne h]

theorem Touch.frame {g : Nat} {f : Gen → Gen} (ht : Touch s g f s') (hf : Safe s a g f) :
    Frame s a s' := by
  refine ⟨Or.inl ht.gen, fun j => ?_, fun j => ?_, Or.inl ht.grWG,
    fun h => Or.inl (ht.attrs.trans h), fun h => Or.inl (ht.conn.trans h)⟩
  · by_cases hj : j = g
    · subst hj
      rw [ht.gens_self]
      exact hf.step
    · rw [ht.gens_of_ne hj]
      exact .refl _ _
  · by_cases hj : j = g
    · subst hj
      rw [ht.gens_self]
      exact hf.count
    · rw [ht.gens_of_ne hj]
      exact Or.inl rfl

theorem Touch.inv {g : Nat} {f : Gen → Gen} (ht : Touch s g f s') (hf : Safe s a g f)
    (hs : Inv s) : Inv s' := by
  have hcur : s'.cur = if s.gen = g then f s.cur else s.cur := by
    unfold Shared.cur
    rw [ht.gen]
    split
    · next h => rw [h, ht.gens_self]
    · next h => rw [ht.gens_of_ne h]
  refine ⟨fun j => ?_, fun j hj => ?_, fun j hj => ?_, ?_, ?_, ?_, fun j => ?_, ht.lock hs.lock,
    fun j hj => ?_⟩
  · by_cases hjg : j = g
    · subst hjg
      rw [ht.gens_self]
      exact hf.ok (hs.ok j)
    · rw [ht.gens_of_ne hjg]
      exact hs.ok j
  · rw [ht.gen] at hj
    obtain ⟨hfin, hzero⟩ := hs.past j hj
    by_cases hjg : j = g
    · subst hjg
      rw [ht.gens_self]
      exact ⟨hf.step.finished hfin, (hf.past hj).trans hzero⟩
    · rw [ht.gens_of_ne hjg]
      exact ⟨hfin, hzero⟩
  · rw [ht.gen] at hj
    have hle := hf.le
    rw [ht.gens_of_ne (by omega)]
    exact hs.future j hj
  · rw [hcur, ht.attrs]
    split
    · next h =>
        subst h
        intro hne
        have hc : (f s.cur).carried = s.cur.carried := hf.carried
        rw [hc]
        exact hs.attrs (fun hfin => hne (hf.step.finished hfin))
    · exact hs.attrs
  · rw [hcur, ht.attrs]
    split
    · next h =>
        subst h
        exact fun hsome => hf.cleanup.mp (hs.cleanup hsome)
    · exact hs.cleanup
  · rw [ht.attrs, ht.conn]
    exact hs.detached
  · rw [ht.gen, ht.conn]
    by_cases hjg : j = g
    · subst hjg
      rw [ht.gens_self, hf.installed, ne_eq, ← hf.cleanup]
      exact hs.installed j
    · rw [ht.gens_of_ne hjg]
      exact hs.installed j
  · rw [ht.gen] at hj
    rw [ht.wheel j hj]
    exact hs.wheel j hj

theorem Touch.keeps {g : Nat} {f : Gen → Gen} (ht : Touch s g f s') (hf : Safe s a g f)
    (hs : Inv s) (hloc : ∀ b ∈ bs, Local s' b)
    (hledger : ∀ i, outline.val i s' + outline.wt i a =
      outline.val i s + total (outline.wt i) bs) : Keeps s a s' bs :=
  ⟨ht.frame hf, ht.inv hf hs, hloc, hledger⟩

/-- How the ledgers see the change of one generation. -/
private theorem update_run (gens : Nat → Gen) (g j : Nat) (f : Gen → Gen) (p : Gen → Int) :
    p (Function.update gens g (f (gens g)) j) =
      p (gens j) + (p (f (gens g)) - p (gens g)) * ((some g == some j).toNat : Int) := by
  by_cases h : j = g
  · subst h
    simp
  · have hne : g ≠ j := fun hg => h hg.symm
    simp [h, hne]

theorem Touch.val {g : Nat} {f : Gen → Gen} (ht : Touch s g f s') (i : Ledger) :
    outline.val i s' =
      match i with
      | .count j => (s.gens j).count +
          ((f (s.gens g)).count - (s.gens g).count) * ((some g == some j).toNat : Int)
      | .body j => Once.run (s.gens j).once +
          ((Once.run (f (s.gens g)).once : Int) - Once.run (s.gens g).once) *
            ((some g == some j).toNat : Int)
      | .callbacks j => Once.run (s.gens j).callbacks +
          ((Once.run (f (s.gens g)).callbacks : Int) - Once.run (s.gens g).callbacks) *
            ((some g == some j).toNat : Int)
      | .cleanup j => Once.run (s.gens j).cleanup +
          ((Once.run (f (s.gens g)).cleanup : Int) - Once.run (s.gens g).cleanup) *
            ((some g == some j).toNat : Int)
      | .readers => s'.readers
      | .writing => s'.writing.toNat
      | .depth => s'.callbackDepth
      | .gr => s.grWG
      | .worker => s.resetRun.isSome.toNat := by
  cases i with
  | gr => exact ht.grWG
  | worker => simp only [outline, ht.resetRun]
  | count j =>
      simp only [outline, ht.gens]
      exact update_run s.gens g j f (fun x => x.count)
  | body j =>
      simp only [outline, ht.gens]
      exact update_run s.gens g j f (fun x => Once.run x.once)
  | callbacks j =>
      simp only [outline, ht.gens]
      exact update_run s.gens g j f (fun x => Once.run x.callbacks)
  | cleanup j =>
      simp only [outline, ht.gens]
      exact update_run s.gens g j f (fun x => Once.run x.cleanup)
  | _ => rfl

/-! ## What a thread knows from its ledgers -/

/-- Whoever has acquired a lifecycle has acquired the current one. -/
theorem Booked.holds_eq {l : Nat} (hs : Inv s) (hb : Booked s a) (h : a.holds = some l) :
    l = s.gen := by
  have hc := hb (.count l)
  simp only [outline, h, beq_self_eq_true, Bool.toNat_true, Nat.cast_one] at hc
  rcases Nat.lt_trichotomy l s.gen with hlt | heq | hgt
  · rw [(hs.past l hlt).2] at hc
    omega
  · exact heq
  · rw [hs.future l hgt] at hc
    simp [Gen.fresh] at hc

theorem Booked.running {g : Nat} (hb : Booked s a) (h : a.body = some g) :
    (s.gens g).once = .running := by
  have hc := hb (.body g)
  simp only [outline, h, beq_self_eq_true, Bool.toNat_true, Nat.cast_one, Once.run] at hc
  by_cases ho : (s.gens g).once = .running
  · exact ho
  · simp [ho] at hc

theorem Booked.worker (hb : Booked s a) (h : a.isWorker = true) : s.resetRun.isSome = true := by
  have hc := hb .worker
  cases hr : s.resetRun.isSome with
  | true => rfl
  | false => simp [outline, h, hr] at hc

theorem Booked.gr_pos (hb : Booked s a) (h : a.gr = true) : 0 < s.grWG := by
  have hc := hb .gr
  simp only [outline, h, Bool.toNat_true, Nat.cast_one] at hc
  omega

theorem Booked.invoking {g : Nat} (hb : Booked s a) (h : a.invokes = some g) :
    (s.gens g).callbacks = .running := by
  have hc := hb (.callbacks g)
  simp only [outline, h, beq_self_eq_true, Bool.toNat_true, Nat.cast_one, Once.run] at hc
  by_cases ho : (s.gens g).callbacks = .running
  · exact ho
  · simp [ho] at hc

theorem Booked.closing {g : Nat} (hb : Booked s a) (h : a.closes = some g) :
    (s.gens g).cleanup = .running := by
  have hc := hb (.cleanup g)
  simp only [outline, h, beq_self_eq_true, Bool.toNat_true, Nat.cast_one, Once.run] at hc
  by_cases ho : (s.gens g).cleanup = .running
  · exact ho
  · simp [ho] at hc

/-! ## Steps that leave the generations alone -/

@[simp] theorem cur_modGen (s : Shared) (f : Gen → Gen) : (s.modGen s.gen f).cur = f s.cur := by
  simp [Shared.modGen, Shared.cur]

theorem safe_id (s : Shared) (a : Thread) : Safe s a s.gen id :=
  ⟨Nat.le_refl _, .refl _ _, id, fun _ => rfl, rfl, rfl, Iff.rfl, Or.inl rfl⟩

theorem touch_same (s : Shared) : Touch s s.gen id s :=
  ⟨rfl, (Function.update_eq_self ..).symm, rfl, rfl, rfl, rfl, id, fun _ _ => rfl⟩

private theorem touch_enter (s : Shared) : Touch s s.gen id s.enter :=
  ⟨rfl, (Function.update_eq_self ..).symm, rfl, rfl, rfl, rfl, id, fun _ _ => rfl⟩

private theorem touch_leave (s : Shared) : Touch s s.gen id s.leave :=
  ⟨rfl, (Function.update_eq_self ..).symm, rfl, rfl, rfl, rfl, id, fun _ _ => rfl⟩

theorem touch_takeTimer (s : Shared) : Touch s s.gen id s.takeTimer :=
  ⟨rfl, (Function.update_eq_self ..).symm, rfl, rfl, rfl, rfl, id, fun _ _ => rfl⟩

theorem touch_installTimer (s : Shared) : Touch s s.gen id s.installTimer := by
  refine ⟨rfl, (Function.update_eq_self ..).symm, rfl, rfl, rfl, rfl, id, fun g hg => ?_⟩
  have hne : g ≠ s.gen := by omega
  simp [Shared.installTimer, hne]

theorem touch_lockPacket {exclusive : Bool} (h : s.canLock exclusive = true) :
    Touch s s.gen id (s.lockPacket exclusive) := by
  unfold Shared.canLock at h
  cases exclusive with
  | true =>
      refine ⟨rfl, (Function.update_eq_self ..).symm, rfl, rfl, rfl, rfl, fun _ _ => ?_,
        fun _ _ => rfl⟩
      simp only [Bool.not_true, Bool.false_or, Bool.and_eq_true, beq_iff_eq] at h
      exact h.2
  | false =>
      refine ⟨rfl, (Function.update_eq_self ..).symm, rfl, rfl, rfl, rfl, fun _ hw => ?_,
        fun _ _ => rfl⟩
      have hfree : s.writing = false := by simpa using h
      have hheld : s.writing = true := hw
      rw [hfree] at hheld
      cases hheld

theorem touch_unlockPacket (s : Shared) (exclusive : Bool) :
    Touch s s.gen id (s.unlockPacket exclusive) := by
  cases exclusive with
  | true =>
      exact ⟨rfl, (Function.update_eq_self ..).symm, rfl, rfl, rfl, rfl, (fun _ h => by cases h),
        fun _ _ => rfl⟩
  | false =>
      refine ⟨rfl, (Function.update_eq_self ..).symm, rfl, rfl, rfl, rfl, fun h hw => ?_,
        fun _ _ => rfl⟩
      have hzero := h hw
      simp [Shared.unlockPacket, hzero]

/-- What the ledgers look at, apart from `packetLock` and the callback depth. -/
def Thread.base (th : Thread) :
    Bool × Option Nat × Option Nat × Bool × Option Nat × Option Nat :=
  (th.gr, th.holds, th.body, th.isWorker, th.invokes, th.closes)

/-- A step that changes at most `packetLock`, the callback depth and the timers. -/
theorem keeps_quiet {b : Thread} (ht : Touch s s.gen id s') (hs : Inv s) (hloc : Local s' b)
    (hbase : b.base = a.base)
    (hreads : (s'.readers : Int) + a.reads.toNat = s.readers + b.reads.toNat)
    (hwrites : (s'.writing.toNat : Int) + a.writes.toNat = s.writing.toNat + b.writes.toNat)
    (hcalls : s'.callbackDepth + a.calls.toNat = s.callbackDepth + b.calls.toNat) :
    Keeps s a s' [b] := by
  simp only [Thread.base, Prod.mk.injEq] at hbase
  obtain ⟨h1, h2, h3, h4, h5, h6⟩ := hbase
  refine ht.keeps (safe_id s a) hs ?_ ?_
  · exact List.forall_mem_singleton.mpr hloc
  · intro i
    rw [ht.val i]
    cases i with
    | readers => simpa [outline] using hreads
    | writing => simpa [outline] using hwrites
    | depth => simpa [outline] using hcalls
    | _ => simp [outline, h1, h2, h3, h4, h5, h6]

/-- All that the ledgers look at. -/
def Thread.dues (th : Thread) :
    (Bool × Option Nat × Option Nat × Bool × Option Nat × Option Nat) × Bool × Bool × Bool :=
  (th.base, th.reads, th.writes, th.calls)

/-- A thread goes on without touching the session. -/
theorem keeps_one {b : Thread} (hs : Inv s) (hloc : Local s b) (hdues : b.dues = a.dues) :
    Keeps s a s [b] := by
  simp only [Thread.dues, Prod.mk.injEq] at hdues
  obtain ⟨hbase, hreads, hwrites, hcalls⟩ := hdues
  exact keeps_quiet (touch_same s) hs hloc hbase (by rw [hreads]) (by rw [hwrites])
    (by rw [hcalls])

/-- A callback is entered. -/
theorem keeps_enter {b : Thread} (hs : Inv s) (hloc : Local s.enter b) (ha : a.calls = false)
    (hdues : b.dues = (a.base, a.reads, a.writes, true)) : Keeps s a s.enter [b] := by
  simp only [Thread.dues, Prod.mk.injEq] at hdues
  obtain ⟨hbase, hreads, hwrites, hcalls⟩ := hdues
  exact keeps_quiet (touch_enter s) hs hloc hbase (by rw [hreads]; rfl) (by rw [hwrites]; rfl)
    (by simp [Shared.enter, ha, hcalls])

/-- A callback returns. -/
theorem keeps_leave {b : Thread} (hs : Inv s) (hloc : Local s.leave b) (ha : a.calls = true)
    (hdues : b.dues = (a.base, a.reads, a.writes, false)) : Keeps s a s.leave [b] := by
  simp only [Thread.dues, Prod.mk.injEq] at hdues
  obtain ⟨hbase, hreads, hwrites, hcalls⟩ := hdues
  exact keeps_quiet (touch_leave s) hs hloc hbase (by rw [hreads]; rfl) (by rw [hwrites]; rfl)
    (by simp [Shared.leave, ha, hcalls])

/-- A thread ends or goes on as other threads. -/
theorem keeps_same (hs : Inv s) (hloc : ∀ b ∈ bs, Local s b)
    (hwt : ∀ i, (outline.wt i a : Int) = total (outline.wt i) bs) : Keeps s a s bs :=
  (touch_same s).keeps (safe_id s a) hs hloc (fun i => by rw [hwt i])

/-- A thread that is not accountable for anything. -/
def Thread.Idle (th : Thread) : Prop := ∀ i, outline.wt i th = 0

/-- A thread ends. -/
theorem keeps_end (hs : Inv s) (ha : a.Idle) : Keeps s a s [] :=
  keeps_same hs (by simp) (fun i => by rw [ha i]; rfl)

/-- `grWG.Add` and `grWG.Done`. -/
theorem keeps_addGr {n : Int} (hs : Inv s) (hn : s.resetRun = none ∨ a.gr = true)
    (hloc : ∀ b ∈ bs, Local (s.addGr n) b)
    (hwt : ∀ i, (outline.wt i a : Int) +
      (match i with
        | .gr => n
        | _ => 0) = total (outline.wt i) bs) :
    Keeps s a (s.addGr n) bs := by
  refine ⟨⟨Or.inl rfl, fun _ => .refl _ _, fun _ => Or.inl rfl, Or.inr hn, Or.inl, Or.inl⟩,
    ⟨hs.ok, hs.past, hs.future, hs.attrs, hs.cleanup, hs.detached, hs.installed, hs.lock,
      hs.wheel⟩, hloc, fun i => ?_⟩
  rw [← hwt i]
  cases i with
  | gr =>
      simp only [outline, Shared.addGr]
      omega
  | _ => simp [outline, Shared.addGr]

/-! ## Steps on one generation -/

/-- A step on one generation that no ledger notices. -/
theorem keeps_mark {g : Nat} {f : Gen → Gen} (hf : Safe s a g f) (hs : Inv s)
    (hcount : (f (s.gens g)).count = (s.gens g).count)
    (honce : Once.run (f (s.gens g)).once = Once.run (s.gens g).once)
    (hcallbacks : (f (s.gens g)).callbacks = (s.gens g).callbacks)
    (hcleanup : (f (s.gens g)).cleanup = (s.gens g).cleanup)
    (hloc : ∀ b ∈ bs, Local (s.modGen g f) b)
    (hwt : ∀ i, (outline.wt i a : Int) = total (outline.wt i) bs) :
    Keeps s a (s.modGen g f) bs := by
  have ht := touch_modGen s g f
  refine ht.keeps hf hs hloc (fun i => ?_)
  rw [ht.val i, ← hwt i]
  cases i <;> simp [outline, hcount, honce, hcallbacks, hcleanup, Shared.modGen]

/-- A lifecycle is acquired. -/
theorem keeps_acquire {b : Thread} {l : Nat} (hs : Inv s) (hl : l ≤ s.gen)
    (hopen : (s.gens l).closed = false) (hloc : ∀ s', Local s' b) (hnone : a.holds = none)
    (hdues : b.dues = ((a.gr, some l, a.body, a.isWorker, a.invokes, a.closes), a.reads, a.writes,
      a.calls)) : Keeps s a (s.modGen l Gen.acquire) [b] := by
  have hcur : ¬ l < s.gen := by
    intro hlt
    have hclosed := ((hs.ok l).finished (hs.past l hlt).1).2.1
    rw [hopen] at hclosed
    cases hclosed
  simp only [Thread.dues, Thread.base, Prod.mk.injEq] at hdues
  obtain ⟨⟨h1, h2, h3, h4, h5, h6⟩, hreads, hwrites, hcalls⟩ := hdues
  have ht := touch_modGen s l Gen.acquire
  refine ht.keeps ⟨hl, ⟨id, id, id, Or.inl, Or.inl, id, Or.inl rfl, Or.inl rfl⟩,
    fun hok => ⟨hok.idle, hok.entered, hok.reconnects, hok.finished, hok.returned⟩,
    fun hlt => absurd hlt hcur, rfl, rfl, Iff.rfl, Or.inr (Or.inl hopen)⟩ hs ?_ ?_
  · exact List.forall_mem_singleton.mpr (hloc _)
  · intro i
    rw [ht.val i]
    cases i <;>
      simp [outline, Gen.acquire, h1, h2, h3, h4, h5, h6, hreads, hwrites, hcalls, hnone,
        Shared.modGen]

/-- A lifecycle is released. -/
theorem keeps_release {l : Nat} (hs : Inv s) (hb : Booked s a) (hl : a.holds = some l)
    (hloc : ∀ s', ∀ b ∈ bs, Local s' b)
    (hwt : ∀ i, (outline.wt i a : Int) =
      (match i with
        | .count g => ((some l == some g).toNat : Int)
        | _ => 0) + total (outline.wt i) bs) :
    Keeps s a (s.modGen l Gen.release) bs := by
  have hcur := hb.holds_eq hs hl
  have ht := touch_modGen s l Gen.release
  refine ht.keeps ⟨by omega, ⟨id, id, id, Or.inl, Or.inl, id, Or.inl rfl, Or.inl rfl⟩,
    fun hok => ⟨hok.idle, hok.entered, hok.reconnects, hok.finished, hok.returned⟩,
    fun hlt => by omega, rfl, rfl, Iff.rfl, Or.inr (Or.inr (Or.inr (Or.inl hl)))⟩ hs (hloc _) ?_
  intro i
  rw [ht.val i, hwt i]
  cases i <;> simp [outline, Gen.release, Shared.modGen]

end Own

end Getty.Transport.Session
