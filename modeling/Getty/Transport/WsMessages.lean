import Getty.Verified.ThreadPool
import Getty.Transport.WriteCount
import Mathlib.Data.List.Count
import Mathlib.Data.List.Perm.Basic

/-!
# Concurrent writers on a websocket

A `gettyWSConn` sends one binary message for one `Send`, under a lock of its own that pings,
pongs and the close frame also take.  `WriteBytes`, `WriteBytesArray`, `WritePkg` and `Send`
of the session hold `packetLock` around it: a batch sends its packages one by one under the
write lock, any other call sends a single message, whatever its size and its lock.

The threads are the calls of one session, the control frames of the connection, and the
`stop` and `gc` of the session.  A call may fail: the session is closed, the package is above
the write limit or of the wrong type, or the connection fails.  A `Send` that finds no
connection reports success and sends nothing.

Four fields are ghosts.  `order` lists the calls by their first message, `rest` is what the
last of them still owes, and `failed` and `dropped` record that a call has failed, or has
found no connection.

## Main results

* `outline_valid` — the invariant survives every step.
* `messages_of_calls` — if all calls succeed, the messages are those of the calls, one call
  after the other.
-/

namespace Getty.Transport.WsMessages

open Getty.Verified.ThreadPool
open Getty.Transport.WriteCount (Arg Call Encoded)

/-! ## What the calls do -/

/-- What a connection sends. -/
inductive Frame where
  | binary (b : Bytes)
  | ping
  | pong (b : Bytes)
  | close
  deriving Repr, DecidableEq

def Frame.message : Frame → Option Bytes
  | .binary b => some b
  | _ => none

/-- The binary messages. -/
def messages (frames : List Frame) : List Bytes := frames.filterMap Frame.message

/-- The session's `maxWriteMsgLen`. -/
structure Cfg where
  maxWriteMsgLen : Int
  deriving Repr, DecidableEq

/-- `websocketPayloadTooLarge`. -/
def tooLarge (cfg : Cfg) (n : Nat) : Bool :=
  decide (0 < cfg.maxWriteMsgLen ∧ cfg.maxWriteMsgLen < n)

/-- The mode of `packetLock`: the write lock for a big package, for a batch and for a timeout
of its own. -/
def exclusive (c : Call) : Bool := c.method.exclusive .ws

/-- What `gettyWSConn.Send` is called with is a byte slice. -/
def legal : Call → Bool
  | .writePkg _ udpCtx _ => !udpCtx
  | .send (.bytes _) => true
  | .send _ => false
  | _ => true

/-! ## Threads and steps -/

/-- Where a call is: at the test of `IsClosed` in `WriteBytesArray` or in `WriteBytes` and
`WritePkg`, before the encoding in `WritePkg`, at the look at the connection of a batch,
before `packetLock`, at the look at the connection, before the next package, before
`writeLock`, before `WriteMessage`, or before the deferred unlock. -/
inductive Pc where
  | arrayClosed
  | isClosed
  | encode
  | arrayConn
  | lock
  | conn
  | send (todo : List Bytes)
  | writeLock (p : Bytes) (todo : List Bytes)
  | write (p : Bytes) (todo : List Bytes)
  | unlock
  deriving Repr, DecidableEq

/-- A call, with the ghost `logged` that says whether it is in `order`; a control frame before
and after it has `writeLock`; and the end of the session. -/
inductive Thread where
  | call (call : Call) (pc : Pc) (logged : Bool)
  | control (f : Frame) (locked : Bool)
  | stop
  | gc
  deriving Repr, DecidableEq

/-- The session and its connection. -/
structure Shared where
  rlocks : Nat
  wlock : Bool
  writeLock : Bool
  closed : Bool
  connected : Bool
  frames : List Frame
  order : List Call
  rest : List Bytes
  failed : Bool
  dropped : Bool
  deriving Repr, DecidableEq

def Shared.init : Shared := ⟨0, false, false, false, true, [], [], [], false, false⟩

def startPc : Call → Pc
  | .writeBytesArray _ => .arrayClosed
  | .send _ => .lock
  | _ => .isClosed

def Thread.start (c : Call) : Thread := .call c (startPc c) false

/-- A call enters `order` when it ends without a message. -/
def Shared.enter (s : Shared) (c : Call) (logged : Bool) : Shared :=
  if logged then s else { s with order := s.order ++ [c] }

/-- A call fails before it has `packetLock`. -/
def Shared.fail (s : Shared) (c : Call) (logged : Bool) : Shared × List Thread :=
  ({ s with failed := true }.enter c logged, [])

/-- A call fails under `packetLock`. -/
def Shared.failLocked (s : Shared) (c : Call) (logged : Bool) : Shared × List Thread :=
  ({ s with failed := true }, [.call c .unlock logged])

/-- A binary message goes out.  The first one of a call puts it in `order`. -/
def Shared.put (s : Shared) (c : Call) (p : Bytes) (logged : Bool) : Shared :=
  if logged then { s with frames := s.frames ++ [.binary p], rest := s.rest.drop 1 }
  else { s with
    frames := s.frames ++ [.binary p], order := s.order ++ [c], rest := c.packages.drop 1 }

/-- Where a call goes once it has `packetLock`.  A batch has looked at the connection
before. -/
def lockedPc : Call → Pc
  | .writeBytesArray [_] => .conn
  | .writeBytesArray pkgs => .send pkgs
  | _ => .conn

/-- `packetLock.Lock` or `RLock`. -/
def lockStep (s : Shared) (c : Call) (logged : Bool) : List (Shared × List Thread) :=
  if exclusive c then
    if s.wlock = false ∧ s.rlocks = 0 then
      [({ s with wlock := true }, [.call c (lockedPc c) logged])]
    else []
  else if s.wlock then []
  else [({ s with rlocks := s.rlocks + 1 }, [.call c (lockedPc c) logged])]

/-- The look at the connection.  `Send` reports success when there is none. -/
def connStep (s : Shared) (c : Call) (logged : Bool) : Shared × List Thread :=
  if s.connected then
    if legal c then (s, [.call c (.send c.packages) logged]) else s.failLocked c logged
  else
    match c with
    | .send _ => ({ s with dropped := true }, [.call c .unlock logged])
    | _ => s.failLocked c logged

def unlockStep (s : Shared) (c : Call) (logged : Bool) : Shared :=
  if exclusive c then { s with wlock := false }.enter c logged
  else { s with rlocks := s.rlocks - 1 }.enter c logged

/-- `WriteMessage` with the connection's `writeLock` held; it fails once a close frame has been
sent, and may fail at any time. -/
def writeStep (s : Shared) (c : Call) (p : Bytes) (todo : List Bytes) (logged : Bool) :
    List (Shared × List Thread) :=
  let failure := { s with writeLock := false }.failLocked c logged
  if Frame.close ∈ s.frames then [failure]
  else [({ s with writeLock := false }.put c p logged, [.call c (.send todo) true]), failure]

/-- One step of a call. -/
def callStep (cfg : Cfg) (s : Shared) (c : Call) (logged : Bool) :
    Pc → List (Shared × List Thread)
  | .arrayClosed =>
      if s.closed then [s.fail c logged]
      else
        match c with
        | .writeBytesArray [_] => [(s, [.call c .isClosed logged])]
        | _ => [(s, [.call c .arrayConn logged])]
  | .isClosed =>
      if s.closed then [s.fail c logged]
      else
        match c with
        | .writePkg _ _ _ => [(s, [.call c .encode logged])]
        | _ => [(s, [.call c .lock logged])]
  -- the lifecycle may refuse the call, and the `Writer` may fail or panic
  | .encode =>
      match c with
      | .writePkg enc _ _ =>
          if enc.err = none then [(s, [.call c .lock logged]), s.fail c logged]
          else [s.fail c logged]
      | _ => []
  | .arrayConn => if s.connected then [(s, [.call c .lock logged])] else [s.fail c logged]
  | .lock => lockStep s c logged
  | .conn => [connStep s c logged]
  | .send [] => [(s, [.call c .unlock logged])]
  | .send (p :: todo) =>
      if tooLarge cfg p.length then [s.failLocked c logged]
      else [(s, [.call c (.writeLock p todo) logged])]
  | .writeLock p todo =>
      if s.writeLock then [] else [({ s with writeLock := true }, [.call c (.write p todo) logged])]
  | .write p todo => writeStep s c p todo logged
  | .unlock => [(unlockStep s c logged, [])]

/-- A ping, a pong or the close frame of `CloseConn`. -/
def controlStep (s : Shared) (f : Frame) (locked : Bool) : List (Shared × List Thread) :=
  if locked then
    if Frame.close ∈ s.frames then [({ s with writeLock := false }, [])]
    else [({ s with writeLock := false, frames := s.frames ++ [f] }, []),
      ({ s with writeLock := false }, [])]
  else if s.writeLock then []
  else [({ s with writeLock := true }, [.control f true])]

def step (cfg : Cfg) (s : Shared) : Thread → List (Shared × List Thread)
  | .call c pc logged => callStep cfg s c logged pc
  | .control f locked => controlStep s f locked
  | .stop => [({ s with closed := true }, [])]
  | .gc => [({ s with connected := false }, [])]

/-- The calls are there from the start and may be scheduled late; control frames and the end of
the session come at any time. -/
def entry : Thread → Bool
  | .control f locked => !locked && f.message.isNone
  | .stop => true
  | .gc => true
  | .call _ _ _ => false

def prog (cfg : Cfg) : Prog Shared Thread where
  entry _ := entry
  step := step cfg

def initial (calls : List Call) : Conf Shared Thread := ⟨Shared.init, calls.map Thread.start⟩

/-! ## The invariant -/

/-- Every call so far has succeeded and found the connection. -/
def Clean (s : Shared) : Prop := s.failed = false ∧ s.dropped = false

/-- The invariant of the session. -/
structure Inv (s : Shared) : Prop where
  rw : s.wlock = true → s.rlocks = 0
  blocks : Clean s → messages s.frames ++ s.rest = s.order.flatMap Call.packages
  owed : Clean s → s.rest ≠ [] → s.wlock = true
  tail : messages (s.frames.takeWhile (· ≠ .close)) = messages s.frames

/-- What a call knows while it has the packages `rem` to send. -/
structure Sending (s : Shared) (c : Call) (rem : List Bytes) (logged : Bool) : Prop where
  fresh : logged = false → rem = c.packages
  owes : exclusive c = true → Clean s → s.rest = if logged then rem else []
  single : exclusive c = false → rem.length ≤ 1 ∧ (logged = true → rem = [])

/-- What a thread knows. -/
def Local (s : Shared) : Thread → Prop
  | .call c .conn logged => logged = false ∧ (exclusive c = true → Clean s → s.rest = [])
  | .call c (.send todo) logged => Sending s c todo logged
  | .call c (.writeLock p todo) logged => Sending s c (p :: todo) logged
  | .call c (.write p todo) logged => Sending s c (p :: todo) logged
  | .call c .unlock logged => Clean s → (logged = false → c.packages = []) ∧
      (exclusive c = true → s.rest = [])
  | .call _ _ logged => logged = false
  | .control f _ => f.message = none
  | _ => True

/-- The call holds `packetLock`. -/
def Pc.holds : Pc → Bool
  | .conn => true
  | .send _ => true
  | .writeLock _ _ => true
  | .write _ _ => true
  | .unlock => true
  | _ => false

@[simp] theorem holds_lock : Pc.lock.holds = false := rfl

def Thread.reads : Thread → Bool
  | .call c pc _ => pc.holds && !exclusive c
  | _ => false

def Thread.writes : Thread → Bool
  | .call c pc _ => pc.holds && exclusive c
  | _ => false

/-- The thread is the call `c`, and not in `order` yet. -/
def Thread.pends (c : Call) : Thread → Bool
  | .call d _ logged => d == c && !logged
  | _ => false

/-- The ledgers: who holds `packetLock` in which mode, and which calls are not in `order`. -/
inductive Ledger where
  | readers
  | writer
  | pending (c : Call)

def outline (calls : List Call) : Outline Shared Thread Ledger where
  shared := Inv
  loc := Local
  val
    | .readers, s => s.rlocks
    | .writer, s => s.wlock.toNat
    | .pending c, s => calls.count c - s.order.count c
  wt
    | .readers, th => th.reads.toNat
    | .writer, th => th.writes.toNat
    | .pending c, th => (th.pends c).toNat

/-! ## The steps of a call -/

variable {cfg : Cfg} {calls : List Call} {s s' : Shared} {a b : Thread} {bs : List Thread}
  {c : Call} {logged : Bool}

/-- What a step has to show for itself. -/
abbrev Keeps (calls : List Call) (s : Shared) (a : Thread) (s' : Shared) (bs : List Thread) :
    Prop :=
  (outline calls).Keeps s a s' bs

abbrev Booked (calls : List Call) (s : Shared) (a : Thread) : Prop := (outline calls).Booked s a

/-- The thread goes on as `b`. -/
theorem keeps_one (hinv : Inv s') (hloc : Local s' b)
    (hr : s'.rlocks + a.reads.toNat = s.rlocks + b.reads.toNat)
    (hw : s'.wlock.toNat + a.writes.toNat = s.wlock.toNat + b.writes.toNat)
    (hp : ∀ c, s'.order.count c + (b.pends c).toNat = s.order.count c + (a.pends c).toNat) :
    Keeps calls s a s' [b] := by
  refine Outline.keeps_one hinv hloc fun i => ?_
  cases i with
  | readers =>
      simp only [outline]
      omega
  | writer =>
      simp only [outline]
      omega
  | pending c =>
      have := hp c
      simp only [outline]
      omega

/-- The thread ends. -/
theorem keeps_end (hinv : Inv s') (hr : s'.rlocks + a.reads.toNat = s.rlocks)
    (hw : s'.wlock.toNat + a.writes.toNat = s.wlock.toNat)
    (hp : ∀ c, s'.order.count c = s.order.count c + (a.pends c).toNat) :
    Keeps calls s a s' [] := by
  refine Outline.keeps_end hinv fun i => ?_
  cases i with
  | readers =>
      simp only [outline]
      omega
  | writer =>
      simp only [outline]
      omega
  | pending c =>
      have := hp c
      simp only [outline]
      omega

theorem Booked.no_writer (hb : Booked calls s a) (hinv : Inv s) (hr : a.reads = true) :
    s.wlock = false := by
  have hle := hb .readers
  simp only [outline, hr, Bool.toNat_true, Nat.cast_one] at hle
  cases hw : s.wlock with
  | false => rfl
  | true =>
      have := hinv.rw hw
      omega

theorem Booked.writer (hb : Booked calls s a) (hw : a.writes = true) : s.wlock = true := by
  have hle := hb .writer
  cases h : s.wlock with
  | true => rfl
  | false => simp [outline, hw, h] at hle

/-- Nothing happens to the lock, the frames and the order. -/
structure Quiet (s s' : Shared) : Prop where
  rlocks : s'.rlocks = s.rlocks
  wlock : s'.wlock = s.wlock
  frames : s'.frames = s.frames
  order : s'.order = s.order
  rest : s'.rest = s.rest
  clean : Clean s' → Clean s

theorem Quiet.refl (s : Shared) : Quiet s s := ⟨rfl, rfl, rfl, rfl, rfl, id⟩

theorem Quiet.inv (h : Quiet s s') (hinv : Inv s) : Inv s' := by
  refine ⟨?_, fun hc => ?_, fun hc => ?_, ?_⟩
  · rw [h.wlock, h.rlocks]
    exact hinv.rw
  · rw [h.frames, h.rest, h.order]
    exact hinv.blocks (h.clean hc)
  · rw [h.rest, h.wlock]
    exact hinv.owed (h.clean hc)
  · rw [h.frames]
    exact hinv.tail

theorem Quiet.sending {rem : List Bytes} (h : Quiet s s') (hs : Sending s c rem logged) :
    Sending s' c rem logged := by
  refine ⟨hs.fresh, fun hx hc => ?_, hs.single⟩
  rw [h.rest]
  exact hs.owes hx (h.clean hc)

/-- A call goes on without a change that matters. -/
theorem keeps_quiet {pc pc' : Pc} (hinv : Inv s) (h : Quiet s s')
    (hloc : Local s' (.call c pc' logged)) (hpc : pc'.holds = pc.holds) :
    Keeps calls s (.call c pc logged) s' [.call c pc' logged] := by
  refine keeps_one (h.inv hinv) hloc ?_ ?_ ?_
  · simp only [Thread.reads, hpc, h.rlocks]
  · simp only [Thread.writes, hpc, h.wlock]
  · intro d
    simp only [Thread.pends, h.order]

/-! ### Failures -/

theorem not_clean_failed (s : Shared) : ¬ Clean { s with failed := true } := by
  rintro ⟨h, -⟩
  cases h

theorem enter_count (s : Shared) (c d : Call) (logged : Bool) :
    (s.enter c logged).order.count d = s.order.count d + (c == d && !logged).toNat := by
  cases logged with
  | true => simp [Shared.enter]
  | false => by_cases h : c = d <;> simp [Shared.enter, h]

@[simp] theorem enter_rlocks (s : Shared) (c : Call) (logged : Bool) :
    (s.enter c logged).rlocks = s.rlocks := by
  cases logged <;> rfl

@[simp] theorem enter_wlock (s : Shared) (c : Call) (logged : Bool) :
    (s.enter c logged).wlock = s.wlock := by
  cases logged <;> rfl

theorem enter_inv (hinv : Inv s) (h : Clean s → logged = false → c.packages = []) :
    Inv (s.enter c logged) := by
  cases logged with
  | true => exact hinv
  | false =>
      refine ⟨hinv.rw, fun hc => ?_, hinv.owed, hinv.tail⟩
      show messages s.frames ++ s.rest = (s.order ++ [c]).flatMap Call.packages
      rw [hinv.blocks hc, List.flatMap_append, List.flatMap_cons, h hc rfl]
      simp

/-- After a failure the invariant has little to say. -/
private theorem failed_inv (hinv : Inv s) : Inv { s with failed := true } :=
  ⟨hinv.rw, (fun hc => absurd hc (not_clean_failed s)),
    (fun hc => absurd hc (not_clean_failed s)), hinv.tail⟩

private theorem keeps_fail {pc : Pc} (hinv : Inv s) (hpc : pc.holds = false) :
    Keeps calls s (.call c pc logged) (s.fail c logged).1 (s.fail c logged).2 := by
  refine keeps_end (enter_inv (failed_inv hinv) ?_) ?_ ?_ ?_
  · intro hc
    exact absurd hc (not_clean_failed s)
  · simp [Shared.fail, Thread.reads, hpc]
  · simp [Shared.fail, Thread.writes, hpc]
  · intro d
    exact enter_count _ c d logged

theorem keeps_failLocked {pc : Pc} (hinv : Inv s) (hpc : pc.holds = true) :
    Keeps calls s (.call c pc logged) (s.failLocked c logged).1 (s.failLocked c logged).2 := by
  refine keeps_quiet hinv ⟨rfl, rfl, rfl, rfl, rfl, ?_⟩ ?_ hpc.symm
  · intro hc
    exact absurd hc (not_clean_failed s)
  · intro hc
    exact absurd hc (not_clean_failed s)

/-! ### Messages -/

@[simp] theorem messages_append (l r : List Frame) :
    messages (l ++ r) = messages l ++ messages r := by
  simp [messages]

@[simp] theorem messages_binary (p : Bytes) : messages [.binary p] = [p] := rfl

@[simp] theorem put_rlocks (s : Shared) (c : Call) (p : Bytes) (logged : Bool) :
    (s.put c p logged).rlocks = s.rlocks := by
  cases logged <;> rfl

@[simp] theorem put_wlock (s : Shared) (c : Call) (p : Bytes) (logged : Bool) :
    (s.put c p logged).wlock = s.wlock := by
  cases logged <;> rfl

private theorem put_count (s : Shared) (c d : Call) (p : Bytes) (logged : Bool) :
    (s.put c p logged).order.count d = s.order.count d + (c == d && !logged).toNat := by
  cases logged with
  | true => simp [Shared.put]
  | false => by_cases h : c = d <;> simp [Shared.put, h]

/-- Before the first close frame, a frame more does not change what comes before it. -/
theorem takeWhile_snoc {frames : List Frame} (h : Frame.close ∉ frames) (f : Frame) :
    messages ((frames ++ [f]).takeWhile (· ≠ .close)) = messages (frames ++ [f]) := by
  have hall : ∀ g ∈ frames, decide (g ≠ Frame.close) = true := by
    intro g hg
    rw [decide_eq_true_iff]
    rintro rfl
    exact h hg
  rw [List.takeWhile_append_of_pos hall, messages_append, messages_append]
  cases f <;> rfl

/-- A call that sends knows that nothing is owed when it begins. -/
private theorem rest_nil_of_fresh {rem : List Bytes} (hinv : Inv s) (hs : Sending s c rem false)
    (hn : exclusive c = false → s.wlock = false) (hc : Clean s) : s.rest = [] := by
  cases hx : exclusive c with
  | true => exact hs.owes hx hc
  | false =>
      by_contra hne
      have hw := hinv.owed hc hne
      rw [hn hx] at hw
      cases hw

/-- **A message goes out** under the lock of its call. -/
theorem put_inv {p : Bytes} {todo : List Bytes} (hinv : Inv s)
    (hclose : Frame.close ∉ s.frames) (hs : Sending s c (p :: todo) logged)
    (hx : exclusive c = true → s.wlock = true) (hn : exclusive c = false → s.wlock = false) :
    Inv (s.put c p logged) ∧ Sending (s.put c p logged) c todo true := by
  have htail := takeWhile_snoc hclose (.binary p)
  cases logged with
  | true =>
      -- only a batch sends a second message
      have hexcl : exclusive c = true := by
        cases h : exclusive c with
        | true => rfl
        | false => exact absurd ((hs.single h).2 rfl) (List.cons_ne_nil p todo)
      have hrest : Clean s → s.rest = p :: todo := fun hc => hs.owes hexcl hc
      refine ⟨⟨hinv.rw, fun hc => ?_, fun _ _ => hx hexcl, htail⟩, ⟨nofun, fun _ hc => ?_, ?_⟩⟩
      · show messages (s.frames ++ [.binary p]) ++ s.rest.drop 1 = s.order.flatMap Call.packages
        rw [← hinv.blocks hc, hrest hc]
        simp
      · show s.rest.drop 1 = todo
        rw [hrest hc]
        rfl
      · intro h
        rw [hexcl] at h
        cases h
  | false =>
      have hpkgs : p :: todo = c.packages := hs.fresh rfl
      have hdrop : c.packages.drop 1 = todo := by
        rw [← hpkgs]
        rfl
      refine ⟨⟨hinv.rw, fun hc => ?_, fun hc hne => ?_, htail⟩, ⟨nofun, fun _ hc => hdrop, ?_⟩⟩
      · show messages (s.frames ++ [.binary p]) ++ c.packages.drop 1 =
          (s.order ++ [c]).flatMap Call.packages
        have hblocks := hinv.blocks hc
        rw [rest_nil_of_fresh hinv hs hn hc, List.append_nil] at hblocks
        rw [messages_append, hblocks, List.flatMap_append, hdrop, List.flatMap_cons, ← hpkgs]
        simp
      · cases h : exclusive c with
        | true => exact hx h
        | false =>
            have hlen := (hs.single h).1
            rw [List.length_cons] at hlen
            refine absurd (hdrop.trans (List.length_eq_zero_iff.mp ?_)) hne
            omega
      · intro h
        have hlen := (hs.single h).1
        rw [List.length_cons] at hlen
        have hnil : todo = [] := List.length_eq_zero_iff.mp (by omega)
        rw [hnil]
        exact ⟨Nat.zero_le 1, fun _ => rfl⟩

/-! ### All steps -/

/-- Without the write lock a call has one message at most. -/
private theorem packages_single (hx : exclusive c = false) (hl : legal c = true) :
    c.packages.length ≤ 1 := by
  cases c with
  | writeBytes pkg => exact Nat.le_refl 1
  | writeBytesArray pkgs =>
      match pkgs, hx with
      | [_], _ => exact Nat.le_refl 1
  | writePkg enc udpCtx timeout => exact Nat.le_refl 1
  | send pkg =>
      cases pkg with
      | bytes b => exact Nat.le_refl 1
      | buffers bs => cases hl
      | other => cases hl

theorem sending_start (hlog : logged = false) (hl : legal c = true)
    (hrest : exclusive c = true → Clean s → s.rest = []) : Sending s c c.packages logged := by
  subst hlog
  exact ⟨fun _ => rfl, hrest, fun hx => ⟨packages_single hx hl, nofun⟩⟩

private theorem lockedPc_holds (c : Call) : (lockedPc c).holds = true := by
  unfold lockedPc
  split <;> rfl

private theorem local_lockedPc (hlog : logged = false)
    (hrest : exclusive c = true → Clean s → s.rest = []) :
    Local s (.call c (lockedPc c) logged) := by
  unfold lockedPc
  split
  · exact ⟨hlog, hrest⟩
  · exact sending_start hlog rfl hrest
  · exact ⟨hlog, hrest⟩

/-- Before `packetLock` a call fails, or goes on without touching anything. -/
theorem step_before {pc : Pc} (hpc : pc.holds = false) (hlock : pc ≠ .lock)
    (h : (s', bs) ∈ step cfg s (.call c pc logged)) :
    (s', bs) = s.fail c logged ∨
      ∃ pc', pc'.holds = false ∧ (s', bs) = (s, [.call c pc' logged]) := by
  cases pc with
  | arrayClosed =>
      simp only [step, callStep] at h
      split at h
      · exact Or.inl (List.mem_singleton.mp h)
      · split at h
        · exact Or.inr ⟨.isClosed, rfl, List.mem_singleton.mp h⟩
        · exact Or.inr ⟨.arrayConn, rfl, List.mem_singleton.mp h⟩
  | isClosed =>
      simp only [step, callStep] at h
      split at h
      · exact Or.inl (List.mem_singleton.mp h)
      · split at h
        · exact Or.inr ⟨.encode, rfl, List.mem_singleton.mp h⟩
        · exact Or.inr ⟨.lock, rfl, List.mem_singleton.mp h⟩
  | encode =>
      simp only [step, callStep] at h
      split at h
      · split at h
        · rcases List.mem_pair.mp h with heq | heq
          · exact Or.inr ⟨.lock, rfl, heq⟩
          · exact Or.inl heq
        · exact Or.inl (List.mem_singleton.mp h)
      · cases h
  | arrayConn =>
      simp only [step, callStep] at h
      split at h
      · exact Or.inr ⟨.lock, rfl, List.mem_singleton.mp h⟩
      · exact Or.inl (List.mem_singleton.mp h)
  | lock => exact absurd rfl hlock
  | _ => cases hpc

/-- Before `packetLock` a call has sent nothing. -/
theorem local_before {pc : Pc} (hpc : pc.holds = false) :
    Local s (.call c pc logged) ↔ logged = false := by
  cases pc <;> first | exact Iff.rfl | cases hpc

private theorem keeps_before {pc : Pc} (hinv : Inv s) (hl : Local s (.call c pc logged))
    (hpc : pc.holds = false) (hlock : pc ≠ .lock)
    (h : (s', bs) ∈ step cfg s (.call c pc logged)) : Keeps calls s (.call c pc logged) s' bs := by
  rcases step_before hpc hlock h with heq | ⟨pc', hpc', heq⟩
  · exact Outline.keeps_of_eq heq (keeps_fail hinv hpc)
  · have hloc : Local s (.call c pc' logged) :=
      (local_before hpc').mpr ((local_before hpc).mp hl)
    exact Outline.keeps_of_eq heq (keeps_quiet hinv (.refl s) hloc (hpc'.trans hpc.symm))

private theorem keeps_lock (hinv : Inv s) (hl : Local s (.call c .lock logged))
    (h : (s', bs) ∈ step cfg s (.call c .lock logged)) :
    Keeps calls s (.call c .lock logged) s' bs := by
  have hlog : logged = false := hl
  simp only [step, callStep, lockStep] at h
  split at h
  · next hx =>
      split at h
      · next hfree =>
          rw [List.mem_singleton] at h
          refine Outline.keeps_of_eq h (keeps_one ?_ (local_lockedPc hlog fun _ hc => ?_) ?_ ?_ ?_)
          · exact ⟨fun _ => hfree.2, hinv.blocks, fun _ _ => rfl, hinv.tail⟩
          · by_contra hne
            have hw := hinv.owed hc hne
            rw [hfree.1] at hw
            cases hw
          · simp [Thread.reads, lockedPc_holds, hx]
          · simp [Thread.writes, lockedPc_holds, hx, hfree.1]
          · intro d
            rfl
      · cases h
  · next hx =>
      split at h
      · cases h
      · next hw =>
          rw [List.mem_singleton] at h
          rw [Bool.not_eq_true] at hx hw
          refine Outline.keeps_of_eq h (keeps_one ?_ (local_lockedPc hlog fun hexcl => ?_) ?_ ?_ ?_)
          · refine ⟨fun hw' => ?_, hinv.blocks, hinv.owed, hinv.tail⟩
            rw [show s.wlock = true from hw'] at hw
            cases hw
          · rw [hexcl] at hx
            cases hx
          · simp [Thread.reads, lockedPc_holds, hx]
          · simp [Thread.writes, hx]
          · intro d
            rfl

private theorem keeps_conn (hinv : Inv s) (hl : Local s (.call c .conn logged)) :
    Keeps calls s (.call c .conn logged) (connStep s c logged).1 (connStep s c logged).2 := by
  unfold connStep
  split
  · split
    · next hlegal =>
        exact keeps_quiet hinv (.refl s) (sending_start hl.1 hlegal hl.2) rfl
    · exact keeps_failLocked hinv rfl
  · split
    · have hdropped : ¬ Clean { s with dropped := true } := by
        rintro ⟨-, h⟩
        cases h
      refine keeps_quiet hinv ⟨rfl, rfl, rfl, rfl, rfl, fun hc => absurd hc hdropped⟩ ?_ rfl
      exact fun hc => absurd hc hdropped
    · exact keeps_failLocked hinv rfl

private theorem keeps_write {p : Bytes} {todo : List Bytes} (hinv : Inv s)
    (hl : Local s (.call c (.write p todo) logged))
    (hb : Booked calls s (.call c (.write p todo) logged))
    (h : (s', bs) ∈ step cfg s (.call c (.write p todo) logged)) :
    Keeps calls s (.call c (.write p todo) logged) s' bs := by
  have hquiet : Quiet s { s with writeLock := false } := ⟨rfl, rfl, rfl, rfl, rfl, id⟩
  have hfail : Keeps calls s (.call c (.write p todo) logged)
      ({ s with writeLock := false }.failLocked c logged).1
      ({ s with writeLock := false }.failLocked c logged).2 := by
    refine keeps_quiet hinv ⟨rfl, rfl, rfl, rfl, rfl, ?_⟩ ?_ rfl
    · exact fun hc => absurd hc (not_clean_failed _)
    · exact fun hc => absurd hc (not_clean_failed _)
  simp only [step, callStep, writeStep] at h
  split at h
  · exact Outline.keeps_of_eq (List.mem_singleton.mp h) hfail
  · next hclose =>
      rcases List.mem_pair.mp h with heq | heq
      · refine Outline.keeps_of_eq heq ?_
        have hput := put_inv (hquiet.inv hinv) hclose (hquiet.sending hl)
          (fun hx => hb.writer (by simp [Thread.writes, Pc.holds, hx]))
          (fun hx => hb.no_writer hinv (by simp [Thread.reads, Pc.holds, hx]))
        refine keeps_one hput.1 hput.2 ?_ ?_ ?_
        · simp [Thread.reads, Pc.holds]
        · simp [Thread.writes, Pc.holds]
        · intro d
          simp [Thread.pends, put_count]
      · exact Outline.keeps_of_eq heq hfail

private theorem keeps_unlock (hinv : Inv s) (hl : Local s (.call c .unlock logged))
    (hb : Booked calls s (.call c .unlock logged)) :
    Keeps calls s (.call c .unlock logged) (unlockStep s c logged) [] := by
  unfold unlockStep
  split
  · next hx =>
      have hw := hb.writer (by simp [Thread.writes, Pc.holds, hx])
      refine keeps_end (enter_inv ⟨nofun, hinv.blocks, fun hc hne => ?_, hinv.tail⟩
        fun hc => (hl hc).1) ?_ ?_ ?_
      · exact absurd ((hl hc).2 hx) hne
      · simp [Thread.reads, hx]
      · simp [Thread.writes, Pc.holds, hx, hw]
      · exact fun d => enter_count _ c d logged
  · next hx =>
      rw [Bool.not_eq_true] at hx
      have hle := hb .readers
      simp only [outline, Thread.reads, Pc.holds, hx, Bool.not_false, Bool.and_self,
        Bool.toNat_true, Nat.cast_one] at hle
      refine keeps_end (enter_inv ⟨fun hw => ?_, hinv.blocks, hinv.owed, hinv.tail⟩
        fun hc => (hl hc).1) ?_ ?_ ?_
      · have := hinv.rw hw
        omega
      · simp only [enter_rlocks, Thread.reads, Pc.holds, hx, Bool.not_false, Bool.and_self,
          Bool.toNat_true]
        omega
      · simp [Thread.writes, hx]
      · exact fun d => enter_count _ c d logged

private theorem keeps_call {pc : Pc} (hinv : Inv s) (hl : Local s (.call c pc logged))
    (hb : Booked calls s (.call c pc logged))
    (h : (s', bs) ∈ step cfg s (.call c pc logged)) :
    Keeps calls s (.call c pc logged) s' bs := by
  cases pc with
  | lock => exact keeps_lock hinv hl h
  | conn => exact Outline.keeps_of_eq (List.mem_singleton.mp h) (keeps_conn hinv hl)
  | send todo =>
      cases todo with
      | nil =>
          refine Outline.keeps_of_eq (List.mem_singleton.mp h) (keeps_quiet hinv (.refl s) ?_ rfl)
          intro hc
          refine ⟨fun hlog => (hl.fresh hlog).symm, fun hx => ?_⟩
          rw [hl.owes hx hc]
          split <;> rfl
      | cons p todo =>
          simp only [step, callStep] at h
          split at h
          · exact Outline.keeps_of_eq (List.mem_singleton.mp h) (keeps_failLocked hinv rfl)
          · exact Outline.keeps_of_eq (List.mem_singleton.mp h) (keeps_quiet hinv (.refl s) hl rfl)
  | writeLock p todo =>
      simp only [step, callStep] at h
      split at h
      · cases h
      · have hquiet : Quiet s { s with writeLock := true } := ⟨rfl, rfl, rfl, rfl, rfl, id⟩
        exact Outline.keeps_of_eq (List.mem_singleton.mp h)
          (keeps_quiet hinv hquiet (hquiet.sending hl) rfl)
  | write p todo => exact keeps_write hinv hl hb h
  | unlock => exact Outline.keeps_of_eq (List.mem_singleton.mp h) (keeps_unlock hinv hl hb)
  | _ => exact keeps_before hinv hl rfl nofun h

/-- A control frame is not a message. -/
private theorem control_inv {f : Frame} (hinv : Inv s) (hf : f.message = none)
    (hclose : Frame.close ∉ s.frames) :
    Inv { s with writeLock := false, frames := s.frames ++ [f] } := by
  have hnone : messages [f] = [] := by simp [messages, hf]
  refine ⟨hinv.rw, fun hc => ?_, hinv.owed, takeWhile_snoc hclose f⟩
  show messages (s.frames ++ [f]) ++ s.rest = s.order.flatMap Call.packages
  rw [messages_append, hnone, List.append_nil]
  exact hinv.blocks hc

private theorem keeps_control {f : Frame} {locked : Bool} (hinv : Inv s) (hf : f.message = none)
    (h : (s', bs) ∈ step cfg s (.control f locked)) :
    Keeps calls s (.control f locked) s' bs := by
  have hquiet : ∀ x, Quiet s { s with writeLock := x } :=
    fun x => ⟨rfl, rfl, rfl, rfl, rfl, id⟩
  have hend : Keeps calls s (.control f locked) { s with writeLock := false } [] :=
    keeps_end ((hquiet false).inv hinv) rfl rfl (fun d => rfl)
  simp only [step, controlStep] at h
  split at h
  · split at h
    · exact Outline.keeps_of_eq (List.mem_singleton.mp h) hend
    · next hclose =>
        rcases List.mem_pair.mp h with heq | heq
        · exact Outline.keeps_of_eq heq
            (keeps_end (control_inv hinv hf hclose) rfl rfl (fun d => rfl))
        · exact Outline.keeps_of_eq heq hend
  · split at h
    · cases h
    · exact Outline.keeps_of_eq (List.mem_singleton.mp h)
        (keeps_one ((hquiet true).inv hinv) hf rfl rfl (fun d => rfl))

/-- **A step of any thread keeps the invariant.** -/
theorem step_keeps (hinv : Inv s) (hl : Local s a) (hb : Booked calls s a)
    (h : (s', bs) ∈ step cfg s a) : Keeps calls s a s' bs := by
  cases a with
  | call c pc logged => exact keeps_call hinv hl hb h
  | control f locked => exact keeps_control hinv hl h
  | stop =>
      have hquiet : Quiet s { s with closed := true } := ⟨rfl, rfl, rfl, rfl, rfl, id⟩
      exact Outline.keeps_of_eq (List.mem_singleton.mp h)
        (keeps_end (hquiet.inv hinv) rfl rfl (fun d => rfl))
  | gc =>
      have hquiet : Quiet s { s with connected := false } := ⟨rfl, rfl, rfl, rfl, rfl, id⟩
      exact Outline.keeps_of_eq (List.mem_singleton.mp h)
        (keeps_end (hquiet.inv hinv) rfl rfl (fun d => rfl))

/-! ### Interference -/

/-- A call that neither reads nor writes does not hold `packetLock`. -/
private theorem holds_of_idle {pc : Pc} (hr : (Thread.call c pc logged).reads = false)
    (hw : (Thread.call c pc logged).writes = false) : pc.holds = false := by
  cases hc : exclusive c with
  | true => simpa [Thread.writes, hc] using hw
  | false => simpa [Thread.reads, hc] using hr

private theorem fail_rest (s : Shared) (c : Call) (logged : Bool) :
    (s.fail c logged).1.rest = s.rest := by
  cases logged <;> rfl

private theorem fail_not_clean (s : Shared) (c : Call) (logged : Bool) :
    ¬ Clean (s.fail c logged).1 := by
  cases logged <;> exact not_clean_failed _

private theorem enter_clean (s : Shared) (c : Call) (logged : Bool) :
    Clean (s.enter c logged) ↔ Clean s := by
  cases logged <;> exact Iff.rfl

private theorem put_clean (s : Shared) (c : Call) (p : Bytes) (logged : Bool) :
    Clean (s.put c p logged) ↔ Clean s := by
  cases logged <;> exact Iff.rfl

private theorem lockStep_same (h : (s', bs) ∈ lockStep s c logged) :
    (Clean s' → Clean s) ∧ s'.rest = s.rest := by
  simp only [lockStep] at h
  split at h
  · split at h
    · cases List.mem_singleton.mp h
      exact ⟨id, rfl⟩
    · cases h
  · split at h
    · cases h
    · cases List.mem_singleton.mp h
      exact ⟨id, rfl⟩

/-- Under `packetLock` no step undoes a failure. -/
private theorem callStep_clean {pc : Pc} (hpc : pc.holds = true)
    (h : (s', bs) ∈ callStep cfg s c logged pc) (hclean : Clean s') : Clean s := by
  cases pc with
  | conn =>
      have hconn := List.mem_singleton.mp h
      unfold connStep at hconn
      split at hconn
      · split at hconn
        · cases hconn
          exact hclean
        · cases hconn
          exact absurd hclean (not_clean_failed s)
      · split at hconn
        · cases hconn
          cases hclean.2
        · cases hconn
          exact absurd hclean (not_clean_failed s)
  | send todo =>
      cases todo with
      | nil =>
          cases List.mem_singleton.mp h
          exact hclean
      | cons p todo =>
          simp only [callStep] at h
          split at h
          · cases List.mem_singleton.mp h
            exact absurd hclean (not_clean_failed s)
          · cases List.mem_singleton.mp h
            exact hclean
  | writeLock p todo =>
      obtain ⟨-, h⟩ := mem_blocked h
      cases h
      exact hclean
  | write p todo =>
      simp only [callStep, writeStep] at h
      split at h
      · cases List.mem_singleton.mp h
        exact absurd hclean (not_clean_failed _)
      · rcases List.mem_pair.mp h with heq | heq
        · cases heq
          rw [put_clean] at hclean
          exact hclean
        · cases heq
          exact absurd hclean (not_clean_failed _)
  | unlock =>
      cases List.mem_singleton.mp h
      unfold unlockStep at hclean
      split at hclean
      · rw [enter_clean] at hclean
        exact hclean
      · rw [enter_clean] at hclean
        exact hclean
  | _ => cases hpc

/-- No step undoes a failure, and only a call with `packetLock` changes what is owed. -/
private theorem step_clean (h : (s', bs) ∈ step cfg s a) :
    (Clean s' → Clean s) ∧ (a.reads = false → a.writes = false → s'.rest = s.rest) := by
  cases a with
  | call c pc logged =>
      cases hpc : pc.holds with
      | true =>
          refine ⟨callStep_clean hpc h, fun hr hw => ?_⟩
          rw [holds_of_idle hr hw] at hpc
          cases hpc
      | false =>
          by_cases hlock : pc = .lock
          · subst hlock
            obtain ⟨hclean, hrest⟩ := lockStep_same h
            exact ⟨hclean, fun _ _ => hrest⟩
          · rcases step_before hpc hlock h with heq | ⟨pc', -, heq⟩
            · cases heq
              exact ⟨fun hc => absurd hc (fail_not_clean s c logged),
                fun _ _ => fail_rest s c logged⟩
            · cases heq
              exact ⟨id, fun _ _ => rfl⟩
  | control f locked =>
      simp only [step, controlStep] at h
      split at h
      · split at h
        · cases List.mem_singleton.mp h
          exact ⟨id, fun _ _ => rfl⟩
        · rcases List.mem_pair.mp h with heq | heq
          · cases heq
            exact ⟨id, fun _ _ => rfl⟩
          · cases heq
            exact ⟨id, fun _ _ => rfl⟩
      · split at h
        · cases h
        · cases List.mem_singleton.mp h
          exact ⟨id, fun _ _ => rfl⟩
  | stop =>
      cases List.mem_singleton.mp h
      exact ⟨id, fun _ _ => rfl⟩
  | gc =>
      cases List.mem_singleton.mp h
      exact ⟨id, fun _ _ => rfl⟩

/-- What a thread knows survives the steps of the others. -/
private theorem local_interference (hinv : Inv s) (hb : Local s b)
    (hpair : ∀ i, ((outline calls).wt i a : Int) + (outline calls).wt i b ≤
      (outline calls).val i s)
    (h : (s', bs) ∈ step cfg s a) : Local s' b := by
  obtain ⟨hclean, hrest⟩ := step_clean h
  -- a thread under the write lock is alone with `rest`
  have halone : b.writes = true → s'.rest = s.rest := by
    intro hbw
    have hw := hpair .writer
    have hr := hpair .readers
    have hle : s.wlock.toNat ≤ 1 := Bool.toNat_le _
    simp only [outline, hbw, Bool.toNat_true] at hw hr
    have hwl : s.wlock = true := by
      cases hs : s.wlock with
      | true => rfl
      | false => simp [hs] at hw; omega
    have hzero := hinv.rw hwl
    refine hrest ?_ ?_
    · cases har : a.reads with
      | false => rfl
      | true => simp [har] at hr; omega
    · cases haw : a.writes with
      | false => rfl
      | true => simp [haw] at hw; omega
  have hsending : ∀ {c rem logged}, (exclusive c = true → b.writes = true) →
      Sending s c rem logged → Sending s' c rem logged := by
    intro c rem logged hx hs
    refine ⟨hs.fresh, fun hexcl hc => ?_, hs.single⟩
    rw [halone (hx hexcl)]
    exact hs.owes hexcl (hclean hc)
  cases b with
  | call c pc logged =>
      cases pc with
      | conn =>
          refine ⟨hb.1, fun hexcl hc => ?_⟩
          rw [halone hexcl]
          exact hb.2 hexcl (hclean hc)
      | send todo => exact hsending id hb
      | writeLock p todo => exact hsending id hb
      | write p todo => exact hsending id hb
      | unlock =>
          refine fun hc => ⟨(hb (hclean hc)).1, fun hexcl => ?_⟩
          rw [halone hexcl]
          exact (hb (hclean hc)).2 hexcl
      | _ => exact hb
  | control f locked => exact hb
  | stop => trivial
  | gc => trivial

theorem outline_valid (cfg : Cfg) (calls : List Call) : (outline calls).Valid (prog cfg) where
  entry := by
    intro s a _ ha
    cases a with
    | call c pc logged => cases ha
    | control f locked =>
        simp only [prog, entry, Bool.and_eq_true, Option.isNone_iff_eq_none] at ha
        exact ⟨ha.2, fun i => by cases i <;> rfl⟩
    | stop => exact ⟨trivial, fun i => by cases i <;> rfl⟩
    | gc => exact ⟨trivial, fun i => by cases i <;> rfl⟩
  own := by
    intro s a s' bs hinv hl hb h
    exact step_keeps hinv hl hb h
  other := by
    intro s a b s' bs hinv _ hb hpair h
    exact local_interference hinv hb hpair h

/-! ## Whole runs -/

private theorem startPc_holds (c : Call) : (startPc c).holds = false := by
  cases c <;> rfl

private theorem total_pends (calls : List Call) (c : Call) :
    total (fun th => (th.pends c).toNat) (calls.map Thread.start) = calls.count c := by
  induction calls with
  | nil => rfl
  | cons d calls ih =>
      rw [List.map_cons, total_cons, ih, List.count_cons]
      by_cases hd : d = c
      · simp [Thread.start, Thread.pends, hd]
        omega
      · simp [Thread.start, Thread.pends, hd]

private theorem holds_initial (calls : List Call) : (outline calls).Holds (initial calls) := by
  refine ⟨⟨fun _ => rfl, fun _ => rfl, fun _ hne => absurd rfl hne, rfl⟩, ?_, ?_⟩
  · intro th hth
    obtain ⟨c, -, rfl⟩ := List.mem_map.mp hth
    exact (local_before (startPc_holds c)).mpr rfl
  · intro i
    cases i with
    | readers =>
        refine (total_eq_zero _ fun th hth => ?_).symm
        obtain ⟨c, -, rfl⟩ := List.mem_map.mp hth
        simp [outline, Thread.start, Thread.reads, startPc_holds]
    | writer =>
        refine (total_eq_zero _ fun th hth => ?_).symm
        obtain ⟨c, -, rfl⟩ := List.mem_map.mp hth
        simp [outline, Thread.start, Thread.writes, startPc_holds]
    | pending c =>
        show (calls.count c : Int) - ([] : List Call).count c = _
        rw [List.count_nil]
        exact (Int.sub_zero _).trans (total_pends calls c).symm

/-- **The messages of concurrent writers.**  Once all calls have returned, have succeeded and
have found the connection, the binary messages are those of the calls, one call after the
other, and none comes after a close frame. -/
theorem messages_of_calls {cfg : Cfg} {calls : List Call} {c : Conf Shared Thread}
    (hrun : (prog cfg).Reaches (initial calls) c)
    (hdone : ∀ d pc logged, Thread.call d pc logged ∉ c.pool) (hclean : Clean c.shared) :
    c.shared.order.Perm calls ∧ messages c.shared.frames = c.shared.order.flatMap Call.packages ∧
      messages (c.shared.frames.takeWhile (· ≠ .close)) = messages c.shared.frames := by
  have hc := (outline_valid cfg calls).holds_run (holds_initial calls) hrun
  have hzero : ∀ i, total ((outline calls).wt i) c.pool = 0 := by
    intro i
    refine total_eq_zero _ fun th hth => ?_
    cases th with
    | call d pc logged => exact absurd hth (hdone d pc logged)
    | _ => cases i <;> rfl
  refine ⟨?_, ?_, hc.shared.tail⟩
  · rw [List.perm_iff_count]
    intro d
    have := hc.ledger (.pending d)
    rw [hzero] at this
    simp only [outline] at this
    omega
  · have hrest : c.shared.rest = [] := by
      by_contra hne
      have hw := hc.ledger .writer
      rw [hzero] at hw
      simp [outline, hc.shared.owed hclean hne] at hw
    rw [← hc.shared.blocks hclean, hrest, List.append_nil]

end Getty.Transport.WsMessages
